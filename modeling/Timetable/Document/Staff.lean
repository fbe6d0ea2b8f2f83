import Timetable.Document.Rooms
import Timetable.Staff

/-!
Documents of invigilators, invigilations and reports.
-/

namespace Timetable

def Invigilator.ofJson? (value : Json) : Option Invigilator := do
  let record ← Record.read? ["id", "factor", "otherContributions", "excludedDays",
    "excludedSlots"] value
  return {
    id := ← record.required? "id" Json.text?
    factor := ← record.withDefault? "factor" Json.real? 1.0
    otherContributions := ← record.withDefault? "otherContributions" Json.number? 0
    excludedDays := ← record.list? "excludedDays" Date.ofJson?
    excludedSlots := ← record.list? "excludedSlots" Slot.ofJson?
  }

def Invigilator.toJson (real : Double → Json) (invigilator : Invigilator) : Json :=
  .record [
    ("id", .ofText invigilator.id),
    ("factor", real invigilator.factor),
    ("otherContributions", .ofNat invigilator.otherContributions),
    ("excludedDays", .ofList Date.toJson invigilator.excludedDays),
    ("excludedSlots", .ofList Slot.toJson invigilator.excludedSlots)]

def Invigilation.ofJson? (value : Json) : Option Invigilation := do
  let record ← Record.read? ["slot", "room", "invigilator", "duration", "selfInvigilation"] value
  return {
    slot := ← record.required? "slot" Slot.ofJson?
    room := ← record.nullable? "room" Json.text?
    invigilator := ← record.required? "invigilator" Json.text?
    duration := ← record.required? "duration" Json.number?
    ownExam := ← record.flag? "selfInvigilation"
  }

def Invigilation.toJson (invigilation : Invigilation) : Json :=
  .record [
    ("slot", invigilation.slot.toJson),
    ("room", .ofOption .ofText invigilation.room),
    ("invigilator", .ofText invigilation.invigilator),
    ("duration", .ofNat invigilation.duration),
    ("selfInvigilation", .bool invigilation.ownExam)]

def Balance.toJson (balance : Balance) : Json :=
  .record [
    ("invigilator", .ofText balance.invigilator),
    ("required", .ofNat balance.required),
    ("assigned", .ofNat balance.assigned),
    ("deviation", .ofInt balance.deviation)]

def StaffingReport.toJson (report : StaffingReport) : Json :=
  .record [
    ("invigilations", .ofList Invigilation.toJson report.invigilations),
    ("balances", .ofList Balance.toJson report.balances),
    ("maxDeviation", .ofInt report.maxDeviation),
    ("minDeviation", .ofInt report.minDeviation),
    ("unassigned",
      .ofList (fun (slot, room) => .array [slot.toJson, .ofOption .ofText room]) report.unassigned)]

end Timetable
