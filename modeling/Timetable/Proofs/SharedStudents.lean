import Mathlib.Algebra.BigOperators.Group.Finset.Basic
import Mathlib.Algebra.Order.BigOperators.Group.Finset
import Timetable.Proofs.GroupMembership

/-! Conflicts between groups count students. Every pair of exams of two groups adds the students registered for
both, whichever of the groups is asked. -/

namespace Timetable.Proofs.SharedStudents
open Grouping GroupMembership StudentPairs Tallies

/-- The students registered for both exams, in whatever programs and however often. -/
def common (a b : Exam) : Finset StudentId := a.students.toFinset ∩ b.students.toFinset

def membersOf (exams : List Exam) (group : ExamGroup) : Finset Exam :=
  exams.toFinset.filter (·.ancode ∈ group.exams)

def weight (exams : List Exam) (first second : ExamGroup) : Nat :=
  ∑ a ∈ membersOf exams first, ∑ b ∈ membersOf exams second, (common a b).card

section
variable {exams : List Exam} {a b exam : Exam} {group first second : ExamGroup} {student : StudentId}

@[simp]
private theorem mem_common : student ∈ common a b ↔ student ∈ a.students ∧ student ∈ b.students := by
  simp [common]

@[simp]
theorem mem_membersOf : exam ∈ membersOf exams group ↔ exam ∈ exams ∧ exam.ancode ∈ group.exams := by
  simp [membersOf]

theorem weight_comm (exams : List Exam) (first second : ExamGroup) :
    weight exams first second = weight exams second first := by
  unfold weight
  rw [Finset.sum_comm]
  simp only [common, Finset.inter_comm]

private theorem weight_pos : 0 < weight exams first second ↔ ∃ a ∈ membersOf exams first,
    ∃ b ∈ membersOf exams second, ∃ student, student ∈ a.students ∧ student ∈ b.students := by
  simp only [weight, Finset.sum_pos_iff, Finset.card_pos, Finset.Nonempty, mem_common]

private theorem roster_toFinset (distinct : (exams.map (·.ancode)).Nodup) (known : exam ∈ exams) :
    (roster exams exam.ancode).toFinset = exam.students.toFinset := by
  rw [roster, Lookups.filter_key distinct known]
  ext student
  simp

theorem sharedCount_roster (distinct : (exams.map (·.ancode)).Nodup) (here : a ∈ exams) (there : b ∈ exams) :
    sharedCount (roster exams a.ancode) (roster exams b.ancode) = (common a b).card := by
  rw [sharedCount_eq (roster_nodup _ _), roster_toFinset distinct here, roster_toFinset distinct there]
  rfl

end

section
variable {entries : List ((GroupCode × GroupCode) × Nat)} {code other : GroupCode} {count : Nat}

private theorem mem_conflictsOf (positive : ∀ entry ∈ entries, 0 < entry.2) :
    ⟨other, count⟩ ∈ conflictsOf (tallied entries) code ↔ 0 < count ∧ count = sumFor entries (code, other) := by
  rw [← mem_tallied_of_pos positive, conflictsOf, List.mem_map]
  constructor
  · rintro ⟨⟨⟨own, theirs⟩, n⟩, kept, same⟩
    obtain ⟨listed, rfl⟩ := List.mem_filter.mp kept |>.imp_right of_decide_eq_true
    cases same
    exact listed
  · intro listed
    exact ⟨_, List.mem_filter.mpr ⟨listed, decide_eq_true rfl⟩, rfl⟩

theorem conflictsOf_ascending {weights : Tally} (ascending : Ascending weights) (code : GroupCode) :
    ((conflictsOf weights code).map (·.group)).Pairwise (· < ·) := by
  rw [conflictsOf, List.map_map, List.pairwise_map]
  refine (ascending.sublist List.filter_sublist).imp_of_mem ?_
  intro one two here there before
  have own : one.1.1 = code := of_decide_eq_true (List.mem_filter.mp here).2
  have same : two.1.1 = code := of_decide_eq_true (List.mem_filter.mp there).2
  rw [pairBefore_iff, own, same] at before
  exact (before.resolve_left (Nat.lt_irrefl _)).2

end

section
variable {groups : List ExamGroup} {first second : GroupCode}

/-- The students of a conflict, if it is one between exams of the two groups in this order. -/
def between (groups : List ExamGroup) (first second : GroupCode) (a b : Ancode) (students : Nat) : Nat :=
  if codeOf? groups a = some first ∧ codeOf? groups b = some second then students else 0

/-- Each conflict between exams of two groups links one to the other, whichever exam is the smaller. -/
theorem sumFor_groupLinks (conflicts : Tally) (different : first ≠ second) :
    sumFor (groupLinks groups conflicts) (first, second) = total (conflicts.map fun conflict =>
      between groups first second conflict.1.1 conflict.1.2 conflict.2
        + between groups first second conflict.1.2 conflict.1.1 conflict.2) := by
  rw [groupLinks, sumFor_flatMap]
  congr 1
  apply List.map_congr_left
  rintro ⟨⟨a, b⟩, students⟩ _
  dsimp only
  cases one : codeOf? groups a with
  | none => simp [between, sumFor, one]
  | some own =>
    cases two : codeOf? groups b with
    | none => simp [between, sumFor, one, two]
    | some theirs =>
      simp only [between, one, two, Option.some.injEq]
      by_cases same : own = theirs
      · subst same
        have apart : ¬ (own = first ∧ own = second) := fun both => different (both.1.symm.trans both.2)
        rw [if_pos rfl, if_neg apart]
        rfl
      · rw [if_neg same, sumFor_cons, sumFor_cons, sumFor_eq_zero List.not_mem_nil]
        simp only [Prod.mk.injEq, Nat.add_zero, and_comm]

/-- Counted student by student, the pairs of exams have the students of both, and sums over them are sums over
all two exams. -/
theorem total_conflicts {exams : List Exam} {f : Ancode × Ancode → Nat → Nat} (nothing : ∀ pair, f pair 0 = 0) :
    total ((tallied (countedPairs exams)).map fun conflict => f conflict.1 conflict.2)
      = ∑ a ∈ (exams.map (·.ancode)).toFinset, ∑ b ∈ (exams.map (·.ancode)).toFinset with a < b,
          f (a, b) (sharedCount (roster exams a) (roster exams b)) := by
  have within : ∀ entry ∈ countedPairs exams, entry.1 ∈
      ((exams.map (·.ancode)).toFinset ×ˢ (exams.map (·.ancode)).toFinset).filter fun pair => pair.1 < pair.2 := by
    intro entry member
    simpa only [Finset.mem_filter, Finset.mem_product, List.mem_toFinset, and_assoc] using mem_countedPairs member
  rw [total_tallied nothing within, Finset.sum_filter, Finset.sum_product]
  simp only [Finset.sum_filter, sumFor_countedPairs]
  apply Finset.sum_congr rfl
  intro a _
  apply Finset.sum_congr rfl
  intro b _
  split <;> rfl

/-- A sum over all pairs of numbers takes each two of them in either order. -/
theorem sum_ordered_pairs (numbers : Finset Nat) {f : Nat → Nat → Nat} (apart : ∀ n, f n n = 0) :
    ∑ a ∈ numbers, ∑ b ∈ numbers with a < b, (f a b + f b a) = ∑ a ∈ numbers, ∑ b ∈ numbers, f a b := by
  have above : ∑ a ∈ numbers, ∑ b ∈ numbers with a < b, f b a = ∑ a ∈ numbers, ∑ b ∈ numbers with b < a, f a b := by
    simp only [Finset.sum_filter]
    exact Finset.sum_comm
  simp only [Finset.sum_add_distrib]
  rw [above, ← Finset.sum_add_distrib]
  apply Finset.sum_congr rfl
  intro a _
  simp only [Finset.sum_filter, ← Finset.sum_add_distrib]
  apply Finset.sum_congr rfl
  intro b _
  rcases Nat.lt_trichotomy a b with less | same | greater
  · rw [if_pos less, if_neg (Nat.not_lt_of_lt less), Nat.add_zero]
  · rw [same, apart, ite_self, Nat.add_zero]
  · rw [if_neg (Nat.not_lt_of_lt greater), if_pos greater, Nat.zero_add]

/-- A link leads from a group to another one, from a conflict with students in it. -/
theorem link_spec {conflicts : Tally} {link : (GroupCode × GroupCode) × Nat}
    (member : link ∈ groupLinks groups conflicts) :
    ∃ conflict ∈ conflicts, link.2 = conflict.2 ∧ link.1.1 ≠ link.1.2 ∧
      (∃ ancode, codeOf? groups ancode = some link.1.1) ∧ ∃ ancode, codeOf? groups ancode = some link.1.2 := by
  obtain ⟨⟨⟨a, b⟩, students⟩, listed, member⟩ := List.mem_flatMap.mp member
  refine ⟨_, listed, ?_⟩
  dsimp only at member
  split at member
  next own theirs one two =>
    split at member
    · cases member
    next different =>
      rcases List.mem_pair.mp member with rfl | rfl
      · exact ⟨rfl, different, ⟨a, one⟩, b, two⟩
      · exact ⟨rfl, Ne.symm different, ⟨b, two⟩, a, one⟩
  next => cases member

end

section
variable {calendar : Calendar} {exams : List Exam} {committed : List Placement} {first second : ExamGroup}
  {count : Nat}

private theorem codeOf?_eq_iff (distinct : (exams.map (·.ancode)).Nodup) {exam : Exam} (known : exam ∈ exams)
    (listed : first ∈ found calendar exams committed) :
    codeOf? (found calendar exams committed) exam.ancode = some first.code ↔ exam.ancode ∈ first.exams := by
  constructor
  · intro named
    obtain ⟨members, isList, within⟩ := exists_members known
    have present : countedGroup calendar committed members ∈ found calendar exams committed :=
      List.mem_map_of_mem isList
    have held : exam.ancode ∈ (countedGroup calendar committed members).exams :=
      mem_group_exams.mpr ⟨exam, within, rfl⟩
    rw [codeOf?_found distinct present held, Option.some.injEq] at named
    rwa [← Lookups.eq_of_key (found_codes_nodup distinct) present listed named]
  · intro within
    exact codeOf?_found distinct listed within

/-- What links between two groups add up to, pair of exams by pair of exams, is the sum over all exams of one
and all of the other. -/
theorem sumFor_links (distinct : (exams.map (·.ancode)).Nodup)
    (isFirst : first ∈ found calendar exams committed) (isSecond : second ∈ found calendar exams committed)
    (different : first.code ≠ second.code) :
    sumFor (links calendar exams committed) (first.code, second.code) = weight exams first second := by
  let shared (a b : Ancode) := sharedCount (roster exams a) (roster exams b)
  have shared_comm (a b : Ancode) : shared a b = shared b a := by
    simp only [shared, sharedCount_eq (roster_nodup _ _), Finset.inter_comm]
  have injective : Set.InjOn (fun exam : Exam => exam.ancode) exams.toFinset := by
    intro a here b there same
    exact Lookups.eq_of_key distinct (List.mem_toFinset.mp here) (List.mem_toFinset.mp there) same
  calc sumFor (links calendar exams committed) (first.code, second.code)
      = ∑ a ∈ (exams.map (·.ancode)).toFinset, ∑ b ∈ (exams.map (·.ancode)).toFinset with a < b,
          (between (found calendar exams committed) first.code second.code a b (shared a b)
            + between (found calendar exams committed) first.code second.code b a (shared b a)) := by
        rw [links, sumFor_groupLinks _ different, total_conflicts (f := fun pair students =>
          between (found calendar exams committed) first.code second.code pair.1 pair.2 students
            + between (found calendar exams committed) first.code second.code pair.2 pair.1 students)
          (by simp [between])]
        simp only [shared_comm, shared]
    _ = ∑ a ∈ (exams.map (·.ancode)).toFinset, ∑ b ∈ (exams.map (·.ancode)).toFinset,
          between (found calendar exams committed) first.code second.code a b (shared a b) := by
        apply sum_ordered_pairs
        intro n
        exact if_neg fun both => different (Option.some.inj (both.1.symm.trans both.2))
    _ = weight exams first second := by
        have codes : (exams.map (·.ancode)).toFinset = exams.toFinset.image (·.ancode) := by
          ext ancode
          simp
        simp only [codes, Finset.sum_image injective, weight, membersOf, Finset.sum_filter]
        apply Finset.sum_congr rfl
        intro a here
        rw [List.mem_toFinset] at here
        by_cases within : a.ancode ∈ first.exams
        · rw [if_pos within]
          apply Finset.sum_congr rfl
          intro b there
          rw [List.mem_toFinset] at there
          simp only [between, codeOf?_eq_iff distinct here isFirst, codeOf?_eq_iff distinct there isSecond, within,
            true_and, shared, sharedCount_roster distinct here there]
        · rw [if_neg within]
          apply Finset.sum_eq_zero
          intro b _
          exact if_neg fun both => within ((codeOf?_eq_iff distinct here isFirst).mp both.1)

private theorem links_pos : ∀ link ∈ links calendar exams committed, 0 < link.2 := by
  intro link member
  obtain ⟨⟨pair, students⟩, listed, same, -⟩ := link_spec member
  rw [same]
  exact ((mem_tallied_of_pos countedPairs_pos).mp listed).1

/-- A group has a conflict with every other group that it shares students with, and with no other. -/
theorem mem_conflicts (distinct : (exams.map (·.ancode)).Nodup)
    (isFirst : first ∈ (grouped calendar exams committed).groups)
    (isSecond : second ∈ (grouped calendar exams committed).groups) :
    ⟨second.code, count⟩ ∈ first.conflicts ↔
      second ≠ first ∧ 0 < count ∧ count = weight exams first second := by
  have codes : second ≠ first ↔ first.code ≠ second.code := not_congr
    ⟨fun same => same ▸ rfl, fun same => Lookups.eq_of_key (grouped_codes_nodup distinct) isSecond isFirst same.symm⟩
  rw [codes]
  obtain ⟨bare, listed, rfl⟩ := (mem_grouped distinct).mp isFirst
  obtain ⟨bareOther, listedOther, rfl⟩ := (mem_grouped distinct).mp isSecond
  rw [weights, mem_conflictsOf links_pos]
  by_cases same : bare.code = bareOther.code
  · have nothing : sumFor (links calendar exams committed) (bare.code, bareOther.code) = 0 := by
      apply sumFor_eq_zero
      intro listed
      obtain ⟨link, member, pair⟩ := List.mem_map.mp listed
      obtain ⟨-, -, -, different, -⟩ := link_spec member
      rw [pair] at different
      exact different same
    rw [nothing]
    constructor
    · intro conflict
      omega
    · intro conflict
      exact absurd same conflict.1
  · rw [sumFor_links distinct listed listedOther same]
    exact (and_iff_right same).symm

theorem exists_conflict (distinct : (exams.map (·.ancode)).Nodup) {e f : Exam} {student : StudentId}
    (here : e ∈ exams) (there : f ∈ exams) (one : student ∈ e.students) (other : student ∈ f.students)
    {first second : ExamGroup} (isFirst : first ∈ (grouped calendar exams committed).groups)
    (isSecond : second ∈ (grouped calendar exams committed).groups) (inFirst : e.ancode ∈ first.exams)
    (inSecond : f.ancode ∈ second.exams) (different : first.code ≠ second.code) :
    ∃ count > 0, ⟨second.code, count⟩ ∈ first.conflicts := by
  have shares : 0 < weight exams first second := weight_pos.mpr
    ⟨e, mem_membersOf.mpr ⟨here, inFirst⟩, f, mem_membersOf.mpr ⟨there, inSecond⟩, student, one, other⟩
  refine ⟨_, shares, (mem_conflicts distinct isFirst isSecond).mpr ⟨?_, shares, rfl⟩⟩
  intro same
  exact different (same ▸ rfl)

private theorem conflict_leads_to_group (distinct : (exams.map (·.ancode)).Nodup)
    (isFirst : first ∈ (grouped calendar exams committed).groups) {conflict : GroupConflict}
    (listed : conflict ∈ first.conflicts) :
    ∃ second ∈ (grouped calendar exams committed).groups, second.code = conflict.group := by
  obtain ⟨bare, -, rfl⟩ := (mem_grouped distinct).mp isFirst
  obtain ⟨⟨pair, students⟩, kept, rfl⟩ := List.mem_map.mp listed
  obtain ⟨paired, -⟩ := mem_tallied.mp (List.mem_filter.mp kept).1
  obtain ⟨link, member, rfl⟩ := List.mem_map.mp paired
  obtain ⟨-, -, -, -, -, ancode, code⟩ := link_spec member
  obtain ⟨group, found, same⟩ := exists_of_codeOf? code
  exact ⟨_, (mem_grouped distinct).mpr ⟨group, found, rfl⟩, same⟩

/-- Two groups conflict exactly if a student is registered for an exam of either. The conflict weighs the
students of all pairs of their exams, the same from both sides. Conflicts stand in ascending order, one for
each group. -/
theorem conflicts_weigh_shared_students {grouping : Grouping} (distinct : (exams.map (·.ancode)).Nodup)
    (built : build calendar exams committed = .ok grouping) :
    ∀ first ∈ grouping.groups,
      (first.conflicts.map (·.group)).Pairwise (· < ·) ∧
      (∀ conflict ∈ first.conflicts, 0 < conflict.students ∧
        ∃ second ∈ grouping.groups, second.code = conflict.group) ∧
      ∀ second ∈ grouping.groups,
        ((∃ students, ⟨second.code, students⟩ ∈ first.conflicts) ↔ second ≠ first ∧
          ∃ a ∈ membersOf exams first, ∃ b ∈ membersOf exams second,
            ∃ student, student ∈ a.students ∧ student ∈ b.students) ∧
        ∀ students, ⟨second.code, students⟩ ∈ first.conflicts →
          students = (∑ a ∈ membersOf exams first, ∑ b ∈ membersOf exams second, (common a b).card) ∧
            ⟨first.code, students⟩ ∈ second.conflicts := by
  obtain ⟨-, rfl⟩ := build_ok_iff.mp built
  intro first isFirst
  refine ⟨?_, ?_, ?_⟩
  · obtain ⟨bare, -, rfl⟩ := (mem_grouped distinct).mp isFirst
    exact conflictsOf_ascending (tallied_ascending _) _
  · intro conflict listed
    obtain ⟨second, isSecond, same⟩ := conflict_leads_to_group distinct isFirst listed
    obtain ⟨code, students⟩ := conflict
    dsimp only at same
    subst same
    exact ⟨((mem_conflicts distinct isFirst isSecond).mp listed).2.1, second, isSecond, rfl⟩
  · intro second isSecond
    simp only [mem_conflicts distinct isFirst isSecond, mem_conflicts distinct isSecond isFirst]
    constructor
    · rw [← weight_pos]
      constructor
      · intro conflict
        obtain ⟨students, different, some, rfl⟩ := conflict
        exact ⟨different, some⟩
      · intro both
        exact ⟨_, both.1, both.2, rfl⟩
    · intro students conflict
      obtain ⟨different, some, rfl⟩ := conflict
      exact ⟨rfl, different.symm, some, weight_comm exams first second⟩

end

/-- Exams 1 and 2 are one group. Student `b` sits both of them and exam 3, for which `c` is registered in two
programs. -/
def overlapping : List Exam :=
  [⟨3, "Three", "p", 60, .regular, [⟨"IF", ["c", "b"]⟩, ⟨"DC", ["c"]⟩], {}⟩,
   ⟨2, "Two", "p", 90, .regular, [⟨"IF", ["b", "c"]⟩], { sameSlot := [1] }⟩,
   ⟨1, "One", "p", 90, .regular, [⟨"IF", ["a"]⟩, ⟨"DC", ["b", "b"]⟩], {}⟩]

def overlappingGroups : List ExamGroup :=
  [⟨1, [1, 2], 5, 90, [], [⟨3, 3⟩], .scheduled⟩, ⟨3, [3], 3, 60, [], [⟨1, 3⟩], .scheduled⟩]

theorem each_pair_of_exams_counts : ∃ grouping, (overlapping.map (·.ancode)).Nodup ∧
    build ⟨⟨[], []⟩, false⟩ overlapping [] = .ok grouping ∧ grouping.groups = overlappingGroups ∧
    (∑ a ∈ membersOf overlapping overlappingGroups[0], ∑ b ∈ membersOf overlapping overlappingGroups[1],
      (common a b).card) = 3 ∧
    ⟨1, 3⟩ ∈ overlappingGroups[1].conflicts := by
  have distinct : (overlapping.map (·.ancode)).Nodup := by decide
  have built : build ⟨⟨[], []⟩, false⟩ overlapping []
      = .ok ⟨overlappingGroups, [⟨3, [3]⟩, ⟨1, [1, 2]⟩], [(1, 1), (2, 1), (3, 3)]⟩ := by decide +kernel
  have weighs := conflicts_weigh_shared_students distinct built
  obtain ⟨-, -, between⟩ := weighs overlappingGroups[0] (List.getElem_mem _)
  obtain ⟨sum, back⟩ := (between overlappingGroups[1] (List.getElem_mem _)).2 3 List.mem_cons_self
  exact ⟨_, distinct, built, rfl, sum.symm, back⟩

end Timetable.Proofs.SharedStudents
