import Timetable.Proofs.GroupsRearranged
import Timetable.Proofs.PlacedGroups

/-! Which slots a group may take. They are those that suit all its exams, unless one slot is recorded
for it; a group that is left without any slot is reported, and stops the planning. -/

namespace Timetable.Proofs.AllowedSlots
open Grouping GroupMembership BuiltGroups CommittedGroups GroupsRearranged Chronology InputChecks PlacedGroups

section
variable {calendar : Calendar} {exams members : List Exam} {committed : List Placement} {group : ExamGroup}
  {slot : Slot} {slots others : List Slot} {code : GroupCode}

/-- The slots of the calendar that suit every exam of a group, in the order of time and each once. -/
structure Offered (calendar : Calendar) (exams : List Exam) (group : ExamGroup) (slots : List Slot) : Prop where
  ascending : slots.Pairwise Precedes
  mem_iff : ∀ slot, slot ∈ slots ↔ ∃ timed ∈ calendar.period.slots, timed.slot = slot ∧
    ∀ exam ∈ exams, exam.ancode ∈ group.exams → Fits calendar exam timed

theorem Offered.unique (first : Offered calendar exams group slots) (second : Offered calendar exams group others) :
    slots = others := by
  apply eq_of_precedes first.ascending second.ascending
  intro slot
  rw [first.mem_iff, second.mem_iff]

def Uncommitted (committed : List Placement) (code : GroupCode) : Prop :=
  ∀ placement ∈ committed, placement.group ≠ code

section
variable (distinct : (exams.map (·.ancode)).Nodup)
include distinct

variable (apart : (calendar.period.slots.map (·.slot)).Nodup)
include apart

end

end

end Timetable.Proofs.AllowedSlots
