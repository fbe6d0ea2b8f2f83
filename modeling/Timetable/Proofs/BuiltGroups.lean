import Mathlib.Algebra.BigOperators.Ring.Finset
import Timetable.Proofs.LinkedExams
import Timetable.Proofs.SharedStudents

/-! When groups are built. Registrations of a group, students of two exams and students of two groups are
added up as numbers of a document; groups are built exactly if these sums are numbers, whatever slots and
commitments there are. -/

namespace Timetable.Proofs.BuiltGroups
open Grouping GroupMembership LinkedExams SharedStudents StudentPairs Tallies

/-- All that is added up for exams, and for the lists of exams that make a group, are numbers. -/
structure InRange (exams : List Exam) : Prop where
  registrations : ∀ members ∈ memberLists exams, total (members.map headCount) < numberLimit
  pairs : ∀ a ∈ exams, ∀ b ∈ exams, a.ancode < b.ancode → (common a b).card < numberLimit
  groups : ∀ members ∈ memberLists exams, ∀ others ∈ memberLists exams, members ≠ others →
    ∑ a ∈ members.toFinset, ∑ b ∈ others.toFinset, (common a b).card < numberLimit

variable {calendar : Calendar} {exams members others : List Exam} {committed : List Placement} {grouping : Grouping}

private theorem fits_pairs_iff (distinct : (exams.map (·.ancode)).Nodup) : Fits (countedPairs exams) ↔
    ∀ a ∈ exams, ∀ b ∈ exams, a.ancode < b.ancode → (common a b).card < numberLimit := by
  constructor
  · intro fits a here b there less
    have sum := fits (a.ancode, b.ancode)
    rwa [sumFor_countedPairs, if_pos less, sharedCount_roster distinct here there] at sum
  · rintro small ⟨first, second⟩
    by_cases listed : (first, second) ∈ (countedPairs exams).map (·.1)
    · obtain ⟨entry, member, same⟩ := List.mem_map.mp listed
      obtain ⟨one, two, less⟩ := mem_countedPairs member
      rw [same] at one two less
      obtain ⟨a, here, rfl⟩ := List.mem_map.mp one
      obtain ⟨b, there, rfl⟩ := List.mem_map.mp two
      rw [sumFor_countedPairs, if_pos less, sharedCount_roster distinct here there]
      exact small a here b there less
    · rw [sumFor_eq_zero listed]
      decide

private theorem membersOf_countedGroup (distinct : (exams.map (·.ancode)).Nodup)
    (listed : members ∈ memberLists exams) :
    membersOf exams (countedGroup calendar committed members) = members.toFinset := by
  ext exam
  rw [mem_membersOf, List.mem_toFinset]
  constructor
  · rintro ⟨known, within⟩
    exact (ancode_mem_iff distinct listed known).mp within
  · intro inside
    have known := members_known listed exam inside
    exact ⟨known, (ancode_mem_iff distinct listed known).mpr inside⟩

private theorem fits_links_iff (distinct : (exams.map (·.ancode)).Nodup) : Fits (links calendar exams committed) ↔
    ∀ members ∈ memberLists exams, ∀ others ∈ memberLists exams, members ≠ others →
      ∑ a ∈ members.toFinset, ∑ b ∈ others.toFinset, (common a b).card < numberLimit := by
  have codes := @found_codes_nodup calendar exams committed distinct
  rw [found, List.map_map] at codes
  have sum {members others : List Exam} (listed : members ∈ memberLists exams) (also : others ∈ memberLists exams)
      (different : (countedGroup calendar committed members).code ≠ (countedGroup calendar committed others).code) :
      sumFor (links calendar exams committed)
        ((countedGroup calendar committed members).code, (countedGroup calendar committed others).code)
          = ∑ a ∈ members.toFinset, ∑ b ∈ others.toFinset, (common a b).card := by
    rw [sumFor_links distinct (List.mem_map_of_mem listed) (List.mem_map_of_mem also) different, weight,
      membersOf_countedGroup distinct listed, membersOf_countedGroup distinct also]
  constructor
  · intro fits members listed others also different
    rw [← sum listed also]
    · exact fits _
    · intro same
      exact different (Lookups.eq_of_key codes listed also same)
  · rintro small ⟨first, second⟩
    by_cases linked : (first, second) ∈ (links calendar exams committed).map (·.1)
    · obtain ⟨link, member, same⟩ := List.mem_map.mp linked
      obtain ⟨-, -, -, different, ⟨_, one⟩, _, two⟩ := link_spec member
      rw [same] at different one two
      obtain ⟨group, isFirst, rfl⟩ := exists_of_codeOf? one
      obtain ⟨other, isSecond, rfl⟩ := exists_of_codeOf? two
      obtain ⟨members, listed, rfl⟩ := List.mem_map.mp isFirst
      obtain ⟨others, also, rfl⟩ := List.mem_map.mp isSecond
      rw [sum listed also different]
      exact small members listed others also fun equal => different (equal ▸ rfl)
    · rw [sumFor_eq_zero linked]
      decide

theorem sumsFit_iff (distinct : (exams.map (·.ancode)).Nodup) :
    SumsFit calendar exams committed ↔ InRange exams := by
  constructor
  · rintro ⟨students, pairs, links⟩
    exact ⟨students, (fits_pairs_iff distinct).mp pairs, (fits_links_iff distinct).mp links⟩
  · rintro ⟨students, pairs, links⟩
    exact ⟨students, (fits_pairs_iff distinct).mpr pairs, (fits_links_iff distinct).mpr links⟩

theorem build_ok_iff_inRange (distinct : (exams.map (·.ancode)).Nodup) :
    build calendar exams committed = .ok grouping ↔ InRange exams ∧ grouping = grouped calendar exams committed := by
  rw [build_ok_iff, sumsFit_iff distinct]

theorem build_of_not_inRange (distinct : (exams.map (·.ancode)).Nodup) (large : ¬ InRange exams) :
    build calendar exams committed = .error .overflow :=
  build_overflows fun fits => large ((sumsFit_iff distinct).mp fits)

private theorem not_inRange_of_many {some more : Finset Exam} {n : Nat} (listed : members ∈ memberLists exams)
    (also : others ∈ memberLists exams) (different : members ≠ others) (within : some ⊆ members.toFinset)
    (beside : more ⊆ others.toFinset) (share : ∀ a ∈ some, ∀ b ∈ more, n ≤ (common a b).card)
    (many : numberLimit ≤ some.card * (more.card * n)) : ¬ InRange exams := by
  intro range
  have sum := calc some.card * (more.card * n)
      = ∑ _a ∈ some, ∑ _b ∈ more, n := by simp only [Finset.sum_const, Nat.nsmul_eq_mul]
    _ ≤ ∑ a ∈ some, ∑ b ∈ more, (common a b).card :=
        Finset.sum_le_sum fun a here => Finset.sum_le_sum fun b there => share a here b there
    _ ≤ ∑ a ∈ some, ∑ b ∈ others.toFinset, (common a b).card :=
        Finset.sum_le_sum fun a _ => Finset.sum_le_sum_of_subset beside
    _ ≤ ∑ a ∈ members.toFinset, ∑ b ∈ others.toFinset, (common a b).card := Finset.sum_le_sum_of_subset within
  exact Nat.not_lt.mpr (many.trans sum) (range.groups members listed others also different)

/-- Exams with the same students, from a number on and all of them linked to the first one. -/
def bundle (first count : Nat) (students : List StudentId) : List Exam :=
  (List.range count).map fun n => ⟨first + n, "", "prof", 90, .regular, [⟨"IF", students⟩], { sameSlot := [first] }⟩

def twoBundles (count : Nat) (students : List StudentId) : List Exam :=
  bundle 0 count students ++ bundle count count students

section
variable {first count : Nat} {students : List StudentId} {exam : Exam} {a b : Ancode}

private theorem bundle_ancodes : (bundle first count students).map (·.ancode) = (List.range count).map (first + ·) := by
  rw [bundle, List.map_map]
  rfl

private theorem twoBundles_distinct : ((twoBundles count students).map (·.ancode)).Nodup := by
  rw [twoBundles, List.map_append, bundle_ancodes, bundle_ancodes]
  simp only [Nat.zero_add, List.map_id']
  rw [← List.range_add]
  exact List.nodup_range

private theorem bundle_card : (bundle first count students).toFinset.card = count := by
  have distinct : ((bundle first count students).map (·.ancode)).Nodup := by
    rw [bundle_ancodes]
    exact List.nodup_range.map fun _ _ => Nat.add_left_cancel
  rw [List.toFinset_card_of_nodup distinct.of_map, bundle, List.length_map, List.length_range]

private theorem twoBundles_apart (together : Together (twoBundles count students) a b) : a / count = b / count := by
  induction together with
  | refl => rfl
  | symm _ _ _ ih => exact ih.symm
  | trans _ _ _ _ _ first rest => exact first.trans rest
  | rel a b link =>
    obtain ⟨⟨exam, listed, rfl, leads⟩, -⟩ := link
    rcases List.mem_append.mp listed with listed | listed
    all_goals
      obtain ⟨n, small, rfl⟩ := List.mem_map.mp listed
      have small := List.mem_range.mp small
      rw [List.mem_singleton.mp leads]
    · simp [Nat.div_eq_of_lt small]
    · have some := Nat.zero_lt_of_lt small
      simp [Nat.add_div_left _ some, Nat.div_eq_of_lt small, Nat.div_self some]

/-- Every exam of a bundle is in the list that has the first one. -/
private theorem bundle_members (inside : ∀ exam ∈ bundle first count students, exam ∈ exams)
    (distinct : (exams.map (·.ancode)).Nodup) (some : 0 < count) :
    ∃ members ∈ memberLists exams, (bundle first count students).toFinset ⊆ members.toFinset ∧
      ∃ exam ∈ members, exam.ancode = first := by
  obtain ⟨leader, heads, rfl⟩ : ∃ exam ∈ bundle first count students, exam.ancode = first :=
    ⟨_, List.mem_map_of_mem (List.mem_range.mpr some), rfl⟩
  obtain ⟨members, listed, leads⟩ := exists_members (inside leader heads)
  refine ⟨members, listed, ?_, leader, leads, rfl⟩
  intro exam within
  have within := List.mem_toFinset.mp within
  refine List.mem_toFinset.mpr ((members_iff distinct listed leads).mpr ⟨inside exam within, .symm _ _ (.rel _ _ ?_)⟩)
  refine ⟨⟨exam, inside exam within, rfl, ?_⟩, leader, inside leader heads, rfl⟩
  obtain ⟨n, -, rfl⟩ := List.mem_map.mp within
  exact List.mem_singleton_self _

private theorem bundle_students (listed : exam ∈ bundle first count students) : exam.students = students := by
  obtain ⟨n, -, rfl⟩ := List.mem_map.mp listed
  exact List.append_nil students

/-- Linked exams and their students can be so many that groups are not built: two bundles of 1024 exams are, and
4096 students who sit all of them. -/
theorem build_twoBundles (calendar : Calendar) (committed : List Placement) (once : students.Nodup)
    (many : numberLimit ≤ count * (count * students.length)) :
    build calendar (twoBundles count students) committed = .error .overflow := by
  have distinct := @twoBundles_distinct count students
  refine build_of_not_inRange distinct ?_
  have some : 0 < count := by
    rcases Nat.eq_zero_or_pos count with rfl | some
    · exact absurd many (by rw [Nat.zero_mul]; decide)
    · exact some
  obtain ⟨members, listed, within, a, leads, here⟩ :=
    bundle_members (fun exam => List.mem_append_left (bundle count count students)) distinct some
  obtain ⟨others, also, beside, b, heads, there⟩ :=
    bundle_members (fun exam => List.mem_append_right (bundle 0 count students)) distinct some
  refine not_inRange_of_many listed also ?_ within beside (n := students.length) ?_ ?_
  · rintro rfl
    have together := ((members_iff distinct listed leads).mp heads).2
    have same := twoBundles_apart together
    rw [here, there, Nat.zero_div, Nat.div_self some] at same
    cases same
  · intro a first b second
    rw [common, bundle_students (List.mem_toFinset.mp first), bundle_students (List.mem_toFinset.mp second),
      Finset.inter_self, List.toFinset_card_of_nodup once]
  · rwa [bundle_card, bundle_card]

end

end Timetable.Proofs.BuiltGroups
