import Timetable.Document.Exams
import Timetable.Group

/-!
Documents of exam groups, placements and plans. Numbers with a fraction are written by a rule that
the caller chooses.
-/

namespace Timetable

/-- Containers nest at most this deep in what a reader has to hold back. -/
def nestingLimit : Nat := 127

/-- A state stands inside its group, so two containers are open around its members. -/
def GroupState.ofJson? (value : Json) : Option GroupState := do
  let (kind, fields) ← value.tagged? "state" (nestingLimit - 2)
  match kind with
  | "scheduled" => match fields with
    | .array (_ :: _) => none
    | _ => some .scheduled
  | "locked" =>
    let record ← Record.read? ["slot"] fields
    return .locked (← record.required? "slot" Slot.ofJson?)
  | "externallyManaged" =>
    let record ← Record.read? ["slot"] fields
    return .external (← record.nullable? "slot" Slot.ofJson?)
  | _ => none

def GroupState.toJson : GroupState → Json
  | .scheduled => .record [("state", .ofText "scheduled")]
  | .locked slot => .record [("state", .ofText "locked"), ("slot", slot.toJson)]
  | .external slot =>
    .record [("state", .ofText "externallyManaged"), ("slot", .ofOption Slot.toJson slot)]

def GroupConflict.ofJson? (value : Json) : Option GroupConflict := do
  let record ← Record.read? ["group", "students"] value
  return ⟨← record.required? "group" Json.number?, ← record.required? "students" Json.number?⟩

def GroupConflict.toJson (conflict : GroupConflict) : Json :=
  .record [("group", .ofNat conflict.group), ("students", .ofNat conflict.students)]

def ExamGroup.ofJson? (value : Json) : Option ExamGroup := do
  let record ← Record.read? ["code", "exams", "studentCount", "maxDuration", "allowedSlots",
    "conflicts", "state"] value
  return {
    code := ← record.required? "code" Json.number?
    exams := ← record.required? "exams" (Json.list? Json.number?)
    studentCount := ← record.required? "studentCount" Json.number?
    maxDuration := ← record.required? "maxDuration" Json.number?
    allowedSlots := ← record.required? "allowedSlots" (Json.list? Slot.ofJson?)
    conflicts := ← record.required? "conflicts" (Json.list? GroupConflict.ofJson?)
    state := ← record.required? "state" GroupState.ofJson?
  }

def ExamGroup.toJson (group : ExamGroup) : Json :=
  .record [
    ("code", .ofNat group.code),
    ("exams", .ofList .ofNat group.exams),
    ("studentCount", .ofNat group.studentCount),
    ("maxDuration", .ofNat group.maxDuration),
    ("allowedSlots", .ofList Slot.toJson group.allowedSlots),
    ("conflicts", .ofList GroupConflict.toJson group.conflicts),
    ("state", group.state.toJson)]

def Placement.ofJson? (value : Json) : Option Placement := do
  let record ← Record.read? ["group", "slot"] value
  return ⟨← record.required? "group" Json.number?, ← record.required? "slot" Slot.ofJson?⟩

def Placement.toJson (placement : Placement) : Json :=
  .record [("group", .ofNat placement.group), ("slot", placement.slot.toJson)]

def Clash.ofJson? (value : Json) : Option Clash := do
  let record ← Record.read? ["first", "second", "students"] value
  return {
    first := ← record.required? "first" Json.number?
    second := ← record.required? "second" Json.number?
    students := ← record.required? "students" Json.number?
  }

def Clash.toJson (clash : Clash) : Json :=
  .record [
    ("first", .ofNat clash.first),
    ("second", .ofNat clash.second),
    ("students", .ofNat clash.students)]

def Plan.toJson (real : Double → Json) (plan : Plan) : Json :=
  .record [
    ("entries", .ofList Placement.toJson plan.placements),
    ("penalty", real plan.penalty),
    ("fitness", real plan.fitness),
    ("run", .ofNat plan.run),
    ("generations", .ofNat plan.generations)]

end Timetable
