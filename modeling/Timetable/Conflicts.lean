import Timetable.Exam
import Timetable.Sort
import Timetable.Tally

/-!
Students registered for two exams. They are counted student by student: each adds one to every pair of
exams that they sit. Exams listed under one ancode count as one exam.
-/

namespace Timetable

/-- Students with the exams that they are registered for. -/
abbrev Enrolments := List (StudentId × List Ancode)

/-- Notes an exam of a student. -/
def Enrolments.enter (ancode : Ancode) (student : StudentId) : Enrolments → Enrolments
  | [] => [(student, [ancode])]
  | (other, ancodes) :: rest =>
    if student = other then (other, ancodes ++ [ancode]) :: rest
    else (other, ancodes) :: enter ancode student rest

/-- A student who is registered twice for one exam is noted once. -/
def enrolments (exams : List Exam) : Enrolments :=
  exams.foldl (fun noted exam =>
    exam.registrants.foldl (fun noted student => noted.enter exam.ancode student) noted) []

/-- Every two members of a list, the earlier one first. -/
def pairsOf {α : Type} : List α → List (α × α)
  | [] => []
  | x :: rest => rest.map (x, ·) ++ pairsOf rest

/-- The students of every two exams that share any, the smaller ancode first. -/
def examConflicts (exams : List Exam) : Except Fault Tally :=
  (enrolments exams).foldlM (fun tally (_, ancodes) =>
    (pairsOf (ascending ancodes)).foldlM (fun tally pair => tally.add pair 1) tally) []

end Timetable
