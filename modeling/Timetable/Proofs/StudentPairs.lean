import Timetable.Conflicts
import Timetable.Proofs.Tallies

/-! Students that two exams share. Each student adds one to every pair of their exams; what a pair has in the
end is the number of students who are registered for both. -/

namespace Timetable.Proofs.StudentPairs
open Tallies

/-- The students registered under an ancode, each once. -/
def roster (exams : List Exam) (ancode : Ancode) : List StudentId :=
  ((exams.filter (·.ancode = ancode)).flatMap Exam.students).eraseDups

def sharedCount (first second : List StudentId) : Nat := first.countP second.contains

/-- The pairs that students are counted for, one by one. -/
def countedPairs (exams : List Exam) : List ((Ancode × Ancode) × Nat) :=
  (enrolments exams).flatMap fun (_, ancodes) => (pairsOf (ascending ancodes)).map (·, 1)

def Sits (noted : Enrolments) (student : StudentId) (ancode : Ancode) : Prop :=
  ∃ ancodes, (student, ancodes) ∈ noted ∧ ancode ∈ ancodes

section
variable {noted : Enrolments} {exams : List Exam} {student other : StudentId} {ancode own a b : Ancode}

private theorem mem_students_enter :
    other ∈ (noted.enter ancode student).map (·.1) ↔ other = student ∨ other ∈ noted.map (·.1) := by
  induction noted with
  | nil => simp [Enrolments.enter]
  | cons entry rest ih =>
    rw [Enrolments.enter]
    split
    next same => simp [same]
    next =>
      rw [List.map_cons, List.mem_cons, ih, List.map_cons, List.mem_cons]
      exact or_left_comm

private theorem enter_nodup (once : (noted.map (·.1)).Nodup) : ((noted.enter ancode student).map (·.1)).Nodup := by
  induction noted with
  | nil => exact List.nodup_singleton _
  | cons entry rest ih =>
    rw [Enrolments.enter]
    split
    · exact once
    next different =>
      rw [List.map_cons, List.nodup_cons] at once ⊢
      refine ⟨?_, ih once.2⟩
      rw [mem_students_enter]
      rintro (same | later)
      · exact different same.symm
      · exact once.1 later

private theorem sits_cons {entry : StudentId × List Ancode} :
    Sits (entry :: noted) student ancode ↔ student = entry.1 ∧ ancode ∈ entry.2 ∨ Sits noted student ancode := by
  simp only [Sits, List.mem_cons, or_and_right, exists_or]
  apply or_congr_left
  constructor
  · rintro ⟨_, rfl, inside⟩
    exact ⟨rfl, inside⟩
  · rintro ⟨rfl, inside⟩
    exact ⟨_, rfl, inside⟩

private theorem sits_enter : Sits (noted.enter ancode student) other own ↔
    Sits noted other own ∨ other = student ∧ own = ancode := by
  induction noted with
  | nil =>
    rw [Enrolments.enter, sits_cons, List.mem_singleton, or_comm]
  | cons entry rest ih =>
    rw [Enrolments.enter]
    split
    next same =>
      subst same
      rw [sits_cons, sits_cons, List.mem_append, List.mem_singleton, and_or_left, or_right_comm]
    next => rw [sits_cons, sits_cons, ih, or_assoc]

/-- Those who are noted for one exam. -/
private theorem foldl_enter (students : List StudentId) (once : (noted.map (·.1)).Nodup) :
    let after := students.foldl (fun noted student => noted.enter ancode student) noted
    (after.map (·.1)).Nodup ∧
      ∀ other own, Sits after other own ↔ Sits noted other own ∨ other ∈ students ∧ own = ancode := by
  induction students generalizing noted with
  | nil => exact ⟨once, fun other own => by simp⟩
  | cons student rest ih =>
    obtain ⟨distinct, sits⟩ := ih (@enter_nodup _ student ancode once)
    refine ⟨distinct, fun other own => ?_⟩
    rw [List.foldl_cons, sits, sits_enter, List.mem_cons, or_and_right, or_assoc]

private theorem enrolments_spec (exams : List Exam) : ((enrolments exams).map (·.1)).Nodup ∧
    ∀ student ancode, Sits (enrolments exams) student ancode ↔
      ∃ exam ∈ exams, exam.ancode = ancode ∧ student ∈ exam.students := by
  induction exams using List.reverseRecOn with
  | nil => exact ⟨List.nodup_nil, fun student ancode => by simp [enrolments, Sits]⟩
  | append_singleton earlier exam ih =>
    have last : enrolments (earlier ++ [exam]) = exam.registrants.foldl
        (fun noted student => noted.enter exam.ancode student) (enrolments earlier) := List.foldl_append
    obtain ⟨distinct, sits⟩ := @foldl_enter _ exam.ancode exam.registrants ih.1
    rw [last]
    refine ⟨distinct, fun student ancode => (sits student ancode).trans ?_⟩
    rw [ih.2]
    simp [Exam.registrants, or_and_right, exists_or, and_comm, eq_comm]

private theorem mem_roster : student ∈ roster exams ancode ↔
    ∃ exam ∈ exams, exam.ancode = ancode ∧ student ∈ exam.students := by
  simp [roster, and_assoc]

private theorem enrolments_nodup (exams : List Exam) : ((enrolments exams).map (·.1)).Nodup := (enrolments_spec exams).1

private theorem sits_iff : Sits (enrolments exams) student ancode ↔ student ∈ roster exams ancode := by
  rw [(enrolments_spec exams).2, mem_roster]

private theorem mem_noted {ancodes : List Ancode} (listed : (student, ancodes) ∈ enrolments exams) :
    ancode ∈ ancodes ↔ student ∈ roster exams ancode := by
  rw [← sits_iff]
  constructor
  · intro inside
    exact ⟨ancodes, listed, inside⟩
  · rintro ⟨others, present, inside⟩
    rwa [(Prod.mk.inj (Lookups.eq_of_key (enrolments_nodup exams) listed present rfl)).2]

theorem sharedCount_eq {one two : List StudentId} (once : one.Nodup) :
    sharedCount one two = (one.toFinset ∩ two.toFinset).card := by
  rw [sharedCount, List.countP_eq_length_filter, ← List.toFinset_card_of_nodup (once.filter _), List.toFinset_filter]
  congr 1
  ext student
  simp

theorem roster_nodup (exams : List Exam) (ancode : Ancode) : (roster exams ancode).Nodup := Ordering.eraseDups_nodup _

end

section
variable {numbers : List Nat} {a b : Nat}

private theorem mem_pairsOf (sorted : numbers.Pairwise (· < ·)) :
    (a, b) ∈ pairsOf numbers ↔ a ∈ numbers ∧ b ∈ numbers ∧ a < b := by
  induction sorted with
  | nil => simp [pairsOf]
  | @cons n rest before _ ih =>
    simp only [pairsOf, List.mem_append, List.mem_map, Prod.mk.injEq, ih, List.mem_cons]
    constructor
    · rintro (⟨_, inside, rfl, rfl⟩ | ⟨here, there, less⟩)
      · exact ⟨.inl rfl, .inr inside, before _ inside⟩
      · exact ⟨.inr here, .inr there, less⟩
    · rintro ⟨rfl | here, there, less⟩
      · exact .inl ⟨b, there.resolve_left less.ne', rfl, rfl⟩
      · refine .inr ⟨here, there.resolve_left ?_, less⟩
        rintro rfl
        exact Nat.lt_asymm less (before a here)

private theorem pairsOf_nodup (sorted : numbers.Pairwise (· < ·)) : (pairsOf numbers).Nodup := by
  induction sorted with
  | nil => exact List.nodup_nil
  | @cons n rest before sorted ih =>
    have once : rest.Nodup := sorted.imp Nat.ne_of_lt
    refine List.nodup_append.mpr ⟨once.map (Prod.mk_right_injective n), ih, ?_⟩
    rintro _ first ⟨a, b⟩ later rfl
    obtain ⟨_, -, same⟩ := List.mem_map.mp first
    obtain ⟨rfl, -⟩ := Prod.mk.inj same
    exact Nat.lt_irrefl _ (before _ ((mem_pairsOf sorted).mp later).1)

private theorem sumFor_ones (pairs : List (Nat × Nat)) (pair : Nat × Nat) :
    sumFor (pairs.map (·, 1)) pair = pairs.count pair := by
  induction pairs with
  | nil => rfl
  | cons other rest ih =>
    rw [List.map_cons, sumFor_cons, ih, List.count_cons, Nat.add_comm]
    simp only [beq_iff_eq]

private theorem total_choices {α : Type} (items : List α) (p : α → Bool) :
    total (items.map fun item => if p item then 1 else 0) = items.countP p := by
  induction items with
  | nil => rfl
  | cons item rest ih => rw [List.map_cons, Ordering.total_cons, ih, List.countP_cons, Nat.add_comm]

end

section
variable {exams : List Exam} {a b : Ancode}

/-- Students who have two exams noted are those on both rosters. -/
private theorem countP_enrolments (exams : List Exam) (a b : Ancode) :
    (enrolments exams).countP (fun noted => a ∈ noted.2 ∧ b ∈ noted.2)
      = sharedCount (roster exams a) (roster exams b) := by
  have students : (((enrolments exams).filter fun noted => a ∈ noted.2 ∧ b ∈ noted.2).map (·.1)).Perm
      ((roster exams a).filter (roster exams b).contains) := by
    rw [List.perm_ext_iff_of_nodup ((enrolments_nodup exams).sublist (List.filter_sublist.map _))
      ((roster_nodup exams a).filter _)]
    intro student
    simp only [List.mem_map, List.mem_filter, decide_eq_true_eq, Prod.exists, exists_and_right, exists_eq_right,
      List.contains_iff_mem]
    constructor
    · rintro ⟨ancodes, listed, first, second⟩
      exact ⟨(mem_noted listed).mp first, (mem_noted listed).mp second⟩
    · rintro ⟨first, second⟩
      obtain ⟨ancodes, listed, inside⟩ := sits_iff.mpr first
      exact ⟨ancodes, listed, inside, (mem_noted listed).mpr second⟩
  rw [sharedCount, List.countP_eq_length_filter, List.countP_eq_length_filter, ← students.length_eq, List.length_map]

/-- Counted student by student, a pair of exams has the students that are registered for both. -/
theorem sumFor_countedPairs (exams : List Exam) (a b : Ancode) : sumFor (countedPairs exams) (a, b) =
    if a < b then sharedCount (roster exams a) (roster exams b) else 0 := by
  have each (noted : StudentId × List Ancode) :
      sumFor ((pairsOf (ascending noted.2)).map (·, 1)) (a, b) =
        if a ∈ noted.2 ∧ b ∈ noted.2 ∧ a < b then 1 else 0 := by
    have sorted := Ordering.ascending_sorted noted.2
    rw [sumFor_ones, (pairsOf_nodup sorted).count]
    simp only [mem_pairsOf sorted, Ordering.mem_ascending]
  rw [countedPairs, sumFor_flatMap]
  simp only [each]
  split
  next less =>
    simp only [less, and_true]
    rw [← countP_enrolments, ← total_choices]
    simp only [decide_eq_true_eq]
  next more =>
    simp only [more, and_false, if_false]
    rw [Ordering.total_eq_zero_iff]
    simp

theorem countedPairs_pos : ∀ entry ∈ countedPairs exams, 0 < entry.2 := by
  intro entry member
  obtain ⟨noted, -, member⟩ := List.mem_flatMap.mp member
  obtain ⟨pair, -, rfl⟩ := List.mem_map.mp member
  exact Nat.one_pos

theorem examConflicts_eq (exams : List Exam) : examConflicts exams = addAll [] (countedPairs exams) := by
  rw [countedPairs, ← addAll_flatMap, examConflicts]
  simp only [addAll, List.foldlM_map]

/-- Two exams have a conflict if they share students, and it has as many as are registered for both. -/
theorem mem_examConflicts {tally : Tally} (counted : examConflicts exams = .ok tally) {n : Nat} :
    ((a, b), n) ∈ tally ↔ a < b ∧ 0 < n ∧ n = sharedCount (roster exams a) (roster exams b) := by
  have same : tally = tallied (countedPairs exams) := by
    rw [examConflicts_eq] at counted
    by_cases fits : Fits (countedPairs exams)
    · rw [(addAll_eq _).1 fits] at counted
      exact (Except.ok.inj counted).symm
    · rw [(addAll_eq _).2 fits] at counted
      cases counted
  rw [same, mem_tallied_of_pos countedPairs_pos, sumFor_countedPairs]
  split
  next less => rw [and_iff_right less]
  next more =>
    constructor
    · rintro ⟨some, none⟩
      omega
    · rintro ⟨less, -⟩
      exact absurd less more

/-- Every two exams of a student are known exams, the smaller one first. -/
theorem mem_countedPairs {entry : (Ancode × Ancode) × Nat} (member : entry ∈ countedPairs exams) :
    entry.1.1 ∈ exams.map (·.ancode) ∧ entry.1.2 ∈ exams.map (·.ancode) ∧ entry.1.1 < entry.1.2 := by
  obtain ⟨⟨student, ancodes⟩, listed, member⟩ := List.mem_flatMap.mp member
  obtain ⟨⟨a, b⟩, inside, rfl⟩ := List.mem_map.mp member
  obtain ⟨first, second, less⟩ := (mem_pairsOf (Ordering.ascending_sorted _)).mp inside
  rw [Ordering.mem_ascending, mem_noted listed, mem_roster] at first second
  obtain ⟨exam, known, rfl, -⟩ := first
  obtain ⟨other, present, rfl, -⟩ := second
  exact ⟨List.mem_map_of_mem known, List.mem_map_of_mem present, less⟩

end

end Timetable.Proofs.StudentPairs
