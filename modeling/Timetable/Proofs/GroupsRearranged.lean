import Mathlib.Data.List.Perm.Basic
import Timetable.Proofs.BuiltGroups
import Timetable.Proofs.Chronology
import Timetable.Proofs.LinkedExams

/-! Groups of exams that are listed in another order. A group is told by its members, and whatever is
said of members is the same in any order. -/

namespace Timetable.Proofs.GroupsRearranged
open Grouping GroupMembership BuiltGroups LinkedExams Chronology StudentPairs Tallies

variable {calendar : Calendar} {exams others members again : List Exam} {committed : List Placement}
  {exam other : Exam} {ancode linked : Ancode} {slot : Slot}

structure Reordered (exams others : List Exam) : Prop where
  bare : (exams.map unlinked).Perm (others.map unlinked)
  linked : ∀ ancode other, Links exams ancode other ↔ Links others ancode other

namespace Reordered

theorem symm (same : Reordered exams others) : Reordered others exams :=
  ⟨same.bare.symm, fun ancode linked => (same.linked ancode linked).symm⟩

variable (same : Reordered exams others)
include same

theorem ancodes : (exams.map (·.ancode)).Perm (others.map (·.ancode)) := by
  have codes := same.bare.map (·.ancode)
  rwa [ancodes_unlinked, ancodes_unlinked] at codes

theorem exists_same (member : exam ∈ exams) : ∃ other ∈ others, unlinked other = unlinked exam :=
  List.mem_map.mp (same.bare.mem_iff.mp (List.mem_map_of_mem member))

theorem together : Together exams = Together others := by
  have known (linked : Ancode) : (∃ exam ∈ exams, exam.ancode = linked) ↔ ∃ exam ∈ others, exam.ancode = linked := by
    simpa using same.ancodes.mem_iff (a := linked)
  have steps : (fun ancode linked => Links exams ancode linked ∧ ∃ exam ∈ exams, exam.ancode = linked)
      = fun ancode linked => Links others ancode linked ∧ ∃ exam ∈ others, exam.ancode = linked := by
    funext ancode linked
    rw [same.linked, known]
  rw [Together, Together, steps]

theorem mem_members (distinct : (exams.map (·.ancode)).Nodup) (listed : members ∈ memberLists exams)
    (inside : exam ∈ members) (found : again ∈ memberLists others) (within : other ∈ again)
    (alike : unlinked other = unlinked exam) {bare : Exam} (member : bare ∈ members.map unlinked) :
    bare ∈ again.map unlinked := by
  obtain ⟨one, one_in, rfl⟩ := List.mem_map.mp member
  obtain ⟨known, joined⟩ := (members_iff distinct listed inside).mp one_in
  obtain ⟨two, present, twin⟩ := same.exists_same known
  have codes : other.ancode = exam.ancode := ancode_eq alike
  have code : two.ancode = one.ancode := ancode_eq twin
  refine List.mem_map.mpr ⟨two, ?_, twin⟩
  rw [members_iff (same.ancodes.nodup_iff.mp distinct) found within, codes, code, ← same.together]
  exact ⟨present, joined⟩

/-- The members of every group are members of one group again. -/
theorem exists_members (distinct : (exams.map (·.ancode)).Nodup) (listed : members ∈ memberLists exams) :
    ∃ again ∈ memberLists others, (members.map unlinked).Perm (again.map unlinked) := by
  obtain ⟨exam, inside⟩ := List.exists_mem_of_ne_nil _ (members_ne_nil listed)
  obtain ⟨other, present, alike⟩ := same.exists_same (members_known listed exam inside)
  obtain ⟨again, found, within⟩ := GroupMembership.exists_members present
  have apart := same.ancodes.nodup_iff.mp distinct
  refine ⟨again, found, ?_⟩
  have bare {list : List Exam} (codes : (list.map (·.ancode)).Nodup) : (list.map unlinked).Nodup :=
    List.Nodup.of_map (·.ancode) (by rwa [ancodes_unlinked])
  rw [List.perm_ext_iff_of_nodup (bare (members_distinct distinct listed)) (bare (members_distinct apart found))]
  intro item
  exact ⟨same.mem_members distinct listed inside found within alike,
    same.symm.mem_members apart found within listed inside alike.symm⟩

end Reordered

section
variable (distinct : (calendar.period.slots.map (·.slot)).Nodup)

private theorem commonSlots_sublist (calendar : Calendar) (members : List Exam) :
    (commonSlots calendar members).Sublist (calendar.slots.map (·.slot)) := by
  cases members with
  | nil => exact List.nil_sublist _
  | cons first others => exact List.filter_sublist.trans (List.filter_sublist.map _)

include distinct in
/-- Common slots stand in the order of time. -/
theorem commonSlots_ascending (members : List Exam) : (commonSlots calendar members).Pairwise Precedes := by
  have total : Std.Total fun a b : TimedSlot => a.slot.isAtMost b.slot = true :=
    ⟨fun a b => linear_slot.total a.slot b.slot⟩
  have trans : IsTrans TimedSlot fun a b => a.slot.isAtMost b.slot = true :=
    ⟨fun a b c => linear_slot.trans a.slot b.slot c.slot⟩
  have sorted : (calendar.slots.map (·.slot)).Pairwise fun a b => a.isAtMost b = true :=
    List.pairwise_map.mpr (Ordering.stableSort_pairwise _)
  have apart : (calendar.slots.map (·.slot)).Nodup := ((Ordering.stableSort_perm _).map _).nodup_iff.mpr distinct
  exact (precedes_of_sorted sorted apart).sublist (commonSlots_sublist calendar members)

include distinct in
private theorem commonSlots_perm (same : members.Perm again) :
    commonSlots calendar members = commonSlots calendar again := by
  by_cases absent : members = []
  · subst absent
    rw [same.nil_eq]
  have present : again ≠ [] := fun empty => absent (List.perm_nil.mp (empty ▸ same))
  apply eq_of_precedes (commonSlots_ascending distinct members) (commonSlots_ascending distinct again)
  intro slot
  rw [mem_commonSlots absent, mem_commonSlots present]
  simp only [same.mem_iff]

private theorem commonSlots_unlinked (calendar : Calendar) (members : List Exam) :
    commonSlots calendar (members.map unlinked) = commonSlots calendar members := by
  cases members with
  | nil => rfl
  | cons first others =>
    simp only [List.map_cons, commonSlots, List.all_map]
    rfl

private theorem stateOf_unlinked (members : List Exam) (slot : Option Slot) (common : List Slot) :
    stateOf (members.map unlinked) slot common = stateOf members slot common := by
  simp only [stateOf, List.all_map]
  rfl

private theorem countedGroup_unlinked (calendar : Calendar) (committed : List Placement) (members : List Exam) :
    countedGroup calendar committed (members.map unlinked) = countedGroup calendar committed members := by
  simp only [countedGroup, bareGroup, commonSlots_unlinked, stateOf_unlinked, List.map_map]
  rfl

private theorem stateOf_perm (same : members.Perm again) (slot : Option Slot) (common : List Slot) :
    stateOf members slot common = stateOf again slot common := by
  simp only [stateOf, same.all_eq]

include distinct in
private theorem countedGroup_perm (codes : (members.map (·.ancode)).Nodup) (same : members.Perm again) :
    countedGroup calendar committed members = countedGroup calendar committed again := by
  have sorted : stableSort (fun a b => decide (a ≤ b)) (members.map (·.ancode))
      = stableSort (fun a b => decide (a ≤ b)) (again.map (·.ancode)) :=
    Ordering.stableSort_rearranged Ordering.linear_nat id (same.map _) (by rwa [List.map_id])
  have students := Ordering.total_perm (same.map headCount)
  have longest : (members.map (·.duration)).foldl max 0 = (again.map (·.duration)).foldl max 0 :=
    (same.map _).foldl_eq 0
  simp only [countedGroup, bareGroup, sorted, commonSlots_perm distinct same, stateOf_perm same, students, longest]

end

private theorem roster_unlinked (exams : List Exam) : roster (exams.map unlinked) = roster exams := by
  funext ancode
  simp only [roster, List.filter_map, List.flatMap_map]
  rfl

namespace Reordered
variable (same : Reordered exams others) (distinct : (exams.map (·.ancode)).Nodup)
  (slots : (calendar.period.slots.map (·.slot)).Nodup)
include same distinct

private theorem roster_eq : roster exams = roster others := by
  rw [← roster_unlinked exams, ← roster_unlinked others]
  funext ancode
  rw [roster, roster, Lookups.filter_key_rearranged same.bare (by rwa [ancodes_unlinked])]

private theorem sumFor_pairs (pair : Ancode × Ancode) :
    sumFor (countedPairs exams) pair = sumFor (countedPairs others) pair := by
  rw [sumFor_countedPairs, sumFor_countedPairs, same.roster_eq distinct]

private theorem tallied_pairs : tallied (countedPairs exams) = tallied (countedPairs others) :=
  tallied_congr countedPairs_pos countedPairs_pos (same.sumFor_pairs distinct)

include slots

private theorem found_subset {group : ExamGroup} (listed : group ∈ found calendar exams committed) :
    group ∈ found calendar others committed := by
  obtain ⟨members, isList, rfl⟩ := List.mem_map.mp listed
  obtain ⟨again, found, alike⟩ := same.exists_members distinct isList
  refine List.mem_map.mpr ⟨again, found, ?_⟩
  rw [← countedGroup_unlinked, ← countedGroup_unlinked _ _ members]
  refine (countedGroup_perm slots ?_ alike).symm
  rw [ancodes_unlinked]
  exact members_distinct distinct isList

private theorem found_perm : (found calendar exams committed).Perm (found calendar others committed) := by
  have apart := same.ancodes.nodup_iff.mp distinct
  rw [List.perm_ext_iff_of_nodup (found_codes_nodup distinct).of_map (found_codes_nodup apart).of_map]
  intro group
  exact ⟨same.found_subset distinct slots, same.symm.found_subset apart slots⟩

private theorem links_eq : links calendar exams committed = links calendar others committed := by
  have codes : codeOf? (found calendar exams committed) = codeOf? (found calendar others committed) := by
    funext ancode
    rw [codeOf?, codeOf?, Lookups.filter_rearranged (same.found_perm distinct slots)]
    refine (found_apart distinct).imp ?_
    intro first second apart both
    exact apart ancode (by simpa using both.1) (by simpa using both.2)
  rw [links, links, same.tallied_pairs distinct]
  simp only [groupLinks, codes]

/-- The groups are the same, whatever order exams and links are listed in. -/
theorem grouped_groups : (grouped calendar exams committed).groups = (grouped calendar others committed).groups := by
  have sorted : stableSort (fun a b => decide (a.code ≤ b.code)) (found calendar exams committed)
      = stableSort (fun a b => decide (a.code ≤ b.code)) (found calendar others committed) :=
    Ordering.stableSort_rearranged Ordering.linear_nat (·.code) (same.found_perm distinct slots)
      (found_codes_nodup distinct)
  rw [grouped_groups_eq distinct, grouped_groups_eq (same.ancodes.nodup_iff.mp distinct), sorted,
    weights, weights, same.links_eq distinct slots]

theorem grouped_unschedulable : (grouped calendar exams committed).unschedulable.Perm
    (grouped calendar others committed).unschedulable :=
  (same.found_perm distinct slots).filterMap unschedulable?

end Reordered

/-- Sums do not depend on an order. -/
theorem Reordered.inRange (same : Reordered exams others) (distinct : (exams.map (·.ancode)).Nodup)
    (small : InRange exams) : InRange others := by
  let noSlots : Calendar := ⟨⟨[], []⟩, false⟩
  have linked : links noSlots exams [] = links noSlots others [] := same.links_eq distinct List.nodup_nil
  have apart := same.ancodes.nodup_iff.mp distinct
  obtain ⟨students, pairs, fits⟩ := (@sumsFit_iff noSlots exams [] distinct).mpr small
  refine (@sumsFit_iff noSlots others [] apart).mp ⟨?_, ?_, linked ▸ fits⟩
  · intro again listed
    obtain ⟨members, isList, alike⟩ := same.symm.exists_members apart listed
    have heads := Ordering.total_perm (alike.map headCount)
    rw [List.map_map, List.map_map] at heads
    exact heads.trans_lt (students members isList)
  · intro pair
    rw [← same.sumFor_pairs distinct]
    exact pairs pair

end Timetable.Proofs.GroupsRearranged
