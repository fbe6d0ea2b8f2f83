import Timetable.Document.Groups
import Timetable.Document.Rooms
import Timetable.Document.Staff
import Timetable.Input

/-!
Documents of planning inputs and outcomes.
-/

namespace Timetable

def PlanningInput.fieldNames : List String :=
  ["calendar", "exams", "ntas", "rooms", "invigilators", "committed", "pinnedRooms"]

def PlanningInput.ofJson? (value : Json) : Option PlanningInput := do
  let record ← Record.read? PlanningInput.fieldNames value
  return {
    period := ← record.required? "calendar" ExamPeriod.ofJson?
    exams := ← record.required? "exams" (Json.list? Exam.ofJson?)
    accommodations := ← record.list? "ntas" Accommodation.ofJson?
    rooms := ← record.list? "rooms" Room.ofJson?
    invigilators := ← record.list? "invigilators" Invigilator.ofJson?
    committed := ← record.list? "committed" Placement.ofJson?
    pinned := ← record.list? "pinnedRooms" Seating.ofJson?
  }

def PlanningInput.toJson (real : Double → Json) (input : PlanningInput) : Json :=
  .record [
    ("calendar", input.period.toJson),
    ("exams", .ofList Exam.toJson input.exams),
    ("ntas", .ofList Accommodation.toJson input.accommodations),
    ("rooms", .ofList Room.toJson input.rooms),
    ("invigilators", .ofList (Invigilator.toJson real) input.invigilators),
    ("committed", .ofList Placement.toJson input.committed),
    ("pinnedRooms", .ofList Seating.toJson input.pinned)]

def Outcome.toJson (real : Double → Json) (outcome : Outcome) : Json :=
  .record [
    ("groups", .ofList ExamGroup.toJson outcome.groups),
    ("plan", outcome.plan.toJson real),
    ("rooms", outcome.rooms.toJson),
    ("invigilation", outcome.staffing.toJson)]

end Timetable
