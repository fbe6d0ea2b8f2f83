import Timetable.Document.Planning
import Timetable.Outcome

/-!
Planning in several runs: between them the input is changed, and placements and seatings of the last
outcome are taken over into it.
-/

namespace Timetable

structure Session where
  input : PlanningInput
  config : Config
  last : Option Outcome
deriving DecidableEq, Repr

namespace Session

/-- Plans the input as it stands. A failed run leaves the last outcome as it was. -/
def run (session : Session) (scheduler : Scheduler) : Except PlanningError (Outcome × Session) := do
  let outcome ← planWith scheduler session.input session.config
  return (outcome, { session with last := some outcome })

def addExam (session : Session) (exam : Exam) : Session :=
  { session with input := { session.input with exams := session.input.exams ++ [exam] } }

def removeExam (session : Session) (ancode : Ancode) : Session :=
  let exams := session.input.exams.filter (·.ancode ≠ ancode)
  { session with input := { session.input with exams } }

/-- Commits the first placements of the last outcome, and nothing else. -/
def commit (session : Session) (count : Nat) : Session :=
  let committed := match session.last with
    | some outcome => outcome.plan.placements.take count
    | none => []
  { session with input := { session.input with committed } }

/-- Pins the first seatings of the last outcome, and nothing else. -/
def pin (session : Session) (count : Nat) : Session :=
  let pinned := match session.last with
    | some outcome => outcome.rooms.seatings.take count
    | none => []
  { session with input := { session.input with pinned } }

/-- Replaces one field of the input document; names that the document does not have change
nothing. -/
def setField? (session : Session) (name : String) (value : Json) : Option Session := do
  let input := session.input
  let input ← match name with
    | "calendar" => do pure { input with period := ← ExamPeriod.ofJson? value }
    | "exams" => do pure { input with exams := ← value.list? Exam.ofJson? }
    | "ntas" => do pure { input with accommodations := ← value.list? Accommodation.ofJson? }
    | "rooms" => do pure { input with rooms := ← value.list? Room.ofJson? }
    | "invigilators" => do pure { input with invigilators := ← value.list? Invigilator.ofJson? }
    | "committed" => do pure { input with committed := ← value.list? Placement.ofJson? }
    | "pinnedRooms" => do pure { input with pinned := ← value.list? Seating.ofJson? }
    | _ => pure input
  return { session with input }

end Session

end Timetable
