import Timetable.Proofs.LinkedExams

/-! Groups are the classes of exams under their same-slot links. Each exam is in one group, and a group is
closed: it holds whatever links lead to from one of its exams, in either direction, and nothing else. -/

namespace Timetable.Proofs.GroupClosure
open Grouping GroupMembership LinkedExams

section
variable {calendar : Calendar} {exams : List Exam} {committed : List Placement} {group : ExamGroup}
  {ancode other : Ancode} {code : GroupCode} {exam : Exam}

private theorem known_member (distinct : (exams.map (·.ancode)).Nodup)
    (listed : group ∈ (grouped calendar exams committed).groups) (within : ancode ∈ group.exams) :
    ∃ exam ∈ exams, exam.ancode = ancode := by
  obtain ⟨members, isList, -, held, -⟩ := group_members distinct listed
  rw [held] at within
  obtain ⟨exam, inside, same⟩ := mem_group_exams.mp within
  exact ⟨exam, members_known isList exam inside, same⟩

private theorem grouped_exams_perm (distinct : (exams.map (·.ancode)).Nodup) :
    ((grouped calendar exams committed).groups.flatMap (·.exams)).Perm (exams.map (·.ancode)) := by
  apply (List.perm_ext_iff_of_nodup (grouped_exams_nodup distinct) distinct).mpr
  intro ancode
  constructor
  · intro grouped
    obtain ⟨group, listed, within⟩ := List.mem_flatMap.mp grouped
    obtain ⟨exam, known, rfl⟩ := known_member distinct listed within
    exact List.mem_map_of_mem known
  · intro known
    obtain ⟨exam, member, rfl⟩ := List.mem_map.mp known
    obtain ⟨group, listed, within⟩ := exists_group distinct member
    exact List.mem_flatMap.mpr ⟨group, listed, within⟩

/-- A group that holds one exam holds exactly those that links lead to from there. -/
theorem within_iff (distinct : (exams.map (·.ancode)).Nodup)
    (listed : group ∈ (grouped calendar exams committed).groups) (known : exam ∈ exams)
    (within : exam.ancode ∈ group.exams) {second : Exam} (present : second ∈ exams) :
    second.ancode ∈ group.exams ↔ Together exams exam.ancode second.ancode := by
  obtain ⟨members, isList, -, held, -⟩ := group_members distinct listed
  rw [held, ancode_mem_iff distinct isList known] at within
  rw [held, ancode_mem_iff distinct isList present, members_iff distinct isList within]
  exact and_iff_right present

private theorem same_group_iff (distinct : (exams.map (·.ancode)).Nodup) (known : exam ∈ exams) {second : Exam}
    (present : second ∈ exams) :
    (∃ group ∈ (grouped calendar exams committed).groups, exam.ancode ∈ group.exams ∧ second.ancode ∈ group.exams) ↔
      Together exams exam.ancode second.ancode := by
  constructor
  · rintro ⟨group, listed, here, there⟩
    exact (within_iff distinct listed known here present).mp there
  · intro together
    obtain ⟨group, listed, here⟩ := @exists_group calendar exams committed distinct exam known
    exact ⟨group, listed, here, (within_iff distinct listed known here present).mpr together⟩

private theorem group_ascending (distinct : (exams.map (·.ancode)).Nodup)
    (listed : group ∈ (grouped calendar exams committed).groups) : group.exams.Pairwise (· < ·) := by
  obtain ⟨members, isList, -, held, -⟩ := group_members distinct listed
  rw [held]
  apply Ordering.increasing_of_nodup (Ordering.stableSort_ascending _)
  exact (Ordering.stableSort_perm _).nodup_iff.mpr (members_distinct distinct isList)

private theorem code_least (distinct : (exams.map (·.ancode)).Nodup)
    (listed : group ∈ (grouped calendar exams committed).groups) :
    group.code ∈ group.exams ∧ ∀ ancode ∈ group.exams, group.code ≤ ancode := by
  obtain ⟨members, isList, named, held, -⟩ := group_members distinct listed
  rw [named, held]
  constructor
  · exact code_mem_exams (members_ne_nil isList)
  · intro ancode within
    exact code_le within

private theorem groupOf_eq (calendar : Calendar) (exams : List Exam) (committed : List Placement) :
    (grouped calendar exams committed).groupOf = (ascending (exams.map (·.ancode))).filterMap fun ancode =>
      (codeOf? (found calendar exams committed) ancode).map (ancode, ·) := rfl

private theorem mem_groupOf (distinct : (exams.map (·.ancode)).Nodup) :
    (ancode, code) ∈ (grouped calendar exams committed).groupOf ↔
      ∃ group ∈ (grouped calendar exams committed).groups, group.code = code ∧ ancode ∈ group.exams := by
  rw [groupOf_eq, List.mem_filterMap]
  constructor
  · rintro ⟨named, listed, looked⟩
    obtain ⟨own, found, same⟩ := Option.map_eq_some_iff.mp looked
    obtain ⟨rfl, rfl⟩ := Prod.mk.inj same
    rw [Ordering.mem_ascending] at listed
    obtain ⟨exam, known, rfl⟩ := List.mem_map.mp listed
    obtain ⟨group, present, within⟩ := @exists_group calendar exams committed distinct exam known
    obtain ⟨bare, isGroup, rfl⟩ := (mem_grouped distinct).mp present
    rw [codeOf?_found distinct isGroup within] at found
    exact ⟨_, present, Option.some.inj found, within⟩
  · rintro ⟨group, listed, rfl, within⟩
    obtain ⟨exam, known, rfl⟩ := known_member distinct listed within
    obtain ⟨bare, isGroup, rfl⟩ := (mem_grouped distinct).mp listed
    refine ⟨exam.ancode, Ordering.mem_ascending.mpr (List.mem_map_of_mem known), ?_⟩
    rw [codeOf?_found distinct isGroup within, Option.map_some]

private theorem groupOf_ascending (calendar : Calendar) (exams : List Exam) (committed : List Placement) :
    ((grouped calendar exams committed).groupOf.map (·.1)).Pairwise (· < ·) := by
  rw [groupOf_eq, List.pairwise_map]
  apply List.Pairwise.filterMap _ _ (Ordering.ascending_sorted _)
  intro first second less one here other there
  obtain ⟨_, -, rfl⟩ := Option.map_eq_some_iff.mp here
  obtain ⟨_, -, rfl⟩ := Option.map_eq_some_iff.mp there
  exact less

/-- Every exam is in exactly one group, and two exams are in one group exactly if a chain of links leads from
one to the other. The record of groups by exams agrees with the groups. Exams stand in ascending order, the
first of a group names it, and the names ascend. -/
theorem groups_are_closed_under_links {grouping : Grouping} (distinct : (exams.map (·.ancode)).Nodup)
    (built : build calendar exams committed = .ok grouping) :
    (grouping.groups.flatMap (·.exams)).Perm (exams.map (·.ancode)) ∧
    (∀ first ∈ exams, ∀ second ∈ exams,
      (∃ group ∈ grouping.groups, first.ancode ∈ group.exams ∧ second.ancode ∈ group.exams) ↔
      Together exams first.ancode second.ancode) ∧
    (∀ ancode code, (ancode, code) ∈ grouping.groupOf ↔
      ∃ group ∈ grouping.groups, group.code = code ∧ ancode ∈ group.exams) ∧
    (grouping.groupOf.map (·.1)).Pairwise (· < ·) ∧
    (∀ group ∈ grouping.groups, group.exams.Pairwise (· < ·) ∧
      group.code ∈ group.exams ∧ ∀ ancode ∈ group.exams, group.code ≤ ancode) ∧
    (grouping.groups.map (·.code)).Pairwise (· < ·) := by
  obtain ⟨-, rfl⟩ := build_ok_iff.mp built
  refine ⟨grouped_exams_perm distinct, ?_, ?_, groupOf_ascending calendar exams committed, ?_, ?_⟩
  · intro first known second present
    exact same_group_iff distinct known present
  · intro ancode code
    exact mem_groupOf distinct
  · intro group listed
    exact ⟨group_ascending distinct listed, code_least distinct listed⟩
  · exact grouped_codes_ascending distinct

end

/-- Exams 5, 3 and 8 hang together although 8 and 3 have no link to each other; a link of 4 leads nowhere. -/
def chained : List Exam :=
  [⟨5, "Five", "p", 90, .regular, [], { sameSlot := [3] }⟩,
   ⟨4, "Four", "p", 90, .regular, [], { sameSlot := [99] }⟩,
   ⟨3, "Three", "p", 60, .regular, [], { sameSlot := [3] }⟩,
   ⟨8, "Eight", "p", 60, .regular, [], { sameSlot := [5] }⟩]

theorem chained_exams_meet : ∃ grouping, (chained.map (·.ancode)).Nodup ∧
    build ⟨⟨[], []⟩, false⟩ chained [] = .ok grouping ∧ Together chained 8 3 ∧ ¬ Together chained 8 4 := by
  have distinct : (chained.map (·.ancode)).Nodup := by decide
  have built : build ⟨⟨[], []⟩, false⟩ chained [] = .ok
      ⟨[⟨3, [3, 5, 8], 0, 90, [], [], .scheduled⟩, ⟨4, [4], 0, 90, [], [], .scheduled⟩],
        [⟨3, [3, 5, 8]⟩, ⟨4, [4]⟩], [(3, 3), (4, 4), (5, 3), (8, 3)]⟩ := by decide +kernel
  obtain ⟨-, same, -⟩ := groups_are_closed_under_links distinct built
  refine ⟨_, distinct, built, ?_, ?_⟩
  · apply (same chained[3] (by decide) chained[2] (by decide)).mp
    exact ⟨_, List.mem_cons_self, by decide, by decide⟩
  · intro together
    have joined := (same chained[3] (by decide) chained[1] (by decide)).mpr together
    revert joined
    decide

end Timetable.Proofs.GroupClosure
