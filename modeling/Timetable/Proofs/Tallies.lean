import Mathlib.Algebra.BigOperators.Group.Finset.Basic
import Mathlib.Data.List.Pairwise
import Timetable.Proofs.Lookups
import Timetable.Proofs.Ordering
import Timetable.Proofs.Returned
import Timetable.Tally

/-! Counts that are added up one by one. Each pair ends with the sum of what has been added to it, in
whatever order, and counting faults exactly if one of these sums has too many bits. -/

namespace Timetable.Proofs.Tallies
open Tally Returned

def Ascending (tally : Tally) : Prop := tally.Pairwise fun a b => pairBefore a.1 b.1 = true

/-- What entries add up to for a pair. -/
def sumFor (entries : List ((Nat × Nat) × Nat)) (pair : Nat × Nat) : Nat :=
  total ((entries.filter (·.1 = pair)).map (·.2))

def plus (tally : Tally) (entry : (Nat × Nat) × Nat) : Tally :=
  tally.set entry.1 (tally.count entry.1 + entry.2)

def tallied (entries : List ((Nat × Nat) × Nat)) : Tally := entries.foldl plus []

def Fits (entries : List ((Nat × Nat) × Nat)) : Prop := ∀ pair, sumFor entries pair < numberLimit

def addAll (tally : Tally) (entries : List ((Nat × Nat) × Nat)) : Except Fault Tally :=
  entries.foldlM (fun tally entry => tally.add entry.1 entry.2) tally

section
variable {first second third pair other : Nat × Nat}

theorem pairBefore_iff :
    pairBefore first second = true ↔ first.1 < second.1 ∨ first.1 = second.1 ∧ first.2 < second.2 := by
  simp [pairBefore]

private theorem pairBefore_ne (before : pairBefore first second = true) : first ≠ second := by
  rintro rfl
  rw [pairBefore_iff] at before
  omega

private theorem pairBefore_trans (one : pairBefore first second = true) (two : pairBefore second third = true) :
    pairBefore first third = true := by
  rw [pairBefore_iff] at one two ⊢
  omega

private theorem pairBefore_asymm (one : pairBefore first second = true) : ¬ pairBefore second first = true := by
  rw [pairBefore_iff] at one ⊢
  omega

private theorem pairBefore_of_ne (different : first ≠ second) (later : ¬ pairBefore first second = true) :
    pairBefore second first = true := by
  rw [Ne, Prod.ext_iff] at different
  rw [pairBefore_iff] at later ⊢
  omega

end

section
variable {tally : Tally} {pair other : Nat × Nat} {n m : Nat} {entry : (Nat × Nat) × Nat}

theorem count_cons : count (entry :: tally) pair = if pair = entry.1 then entry.2 else count tally pair := by
  obtain ⟨key, value⟩ := entry
  unfold count
  rw [List.lookup_cons]
  by_cases same : pair = key
  · simp [same]
  · simp [same, beq_eq_false_iff_ne.mpr same]

private theorem count_set : (tally.set pair n).count other = if other = pair then n else tally.count other := by
  induction tally with
  | nil =>
    rw [Tally.set, count_cons]
  | cons entry rest ih =>
    rw [Tally.set]
    split
    next same =>
      subst same
      simp only [count_cons]
      split <;> rfl
    next different =>
      split
      · rw [count_cons]
      · rw [count_cons, ih, count_cons]
        by_cases same : other = pair
        · rw [if_pos same, if_pos same, if_neg (same ▸ different)]
        · rw [if_neg same, if_neg same]

private theorem mem_pairs_set : other ∈ (tally.set pair n).map (·.1) ↔ other = pair ∨ other ∈ tally.map (·.1) := by
  induction tally with
  | nil => simp [Tally.set]
  | cons entry rest ih =>
    rw [Tally.set]
    split
    next same => simp [same]
    next =>
      split
      · simp
      · rw [List.map_cons, List.mem_cons, ih, List.map_cons, List.mem_cons]
        exact or_left_comm

private theorem set_ascending (ascending : Ascending tally) : Ascending (tally.set pair n) := by
  induction ascending with
  | nil => exact .cons nofun .nil
  | @cons entry rest first later ih =>
    rw [Tally.set]
    split
    next same => exact .cons (fun other member => same ▸ first other member) later
    next different =>
      split
      next before =>
        refine .cons ?_ (.cons first later)
        exact List.forall_mem_cons.mpr ⟨before, fun other member => pairBefore_trans before (first other member)⟩
      next behind =>
        refine .cons (fun other member => ?_) ih
        rcases mem_pairs_set.mp (List.mem_map_of_mem member) with same | old
        · rw [same]
          exact pairBefore_of_ne different behind
        · obtain ⟨kept, present, same⟩ := List.mem_map.mp old
          exact same ▸ first kept present

private theorem pairs_nodup (ascending : Ascending tally) : (tally.map (·.1)).Nodup := by
  rw [List.Nodup, List.pairwise_map]
  exact ascending.imp pairBefore_ne

private theorem mem_iff_count (ascending : Ascending tally) :
    (pair, n) ∈ tally ↔ pair ∈ tally.map (·.1) ∧ tally.count pair = n := by
  have counted {m : Nat} (member : (pair, m) ∈ tally) : tally.count pair = m := by
    rw [count, Lookups.lookup_key (pairs_nodup ascending) member, Option.getD_some]
  constructor
  · intro member
    exact ⟨List.mem_map_of_mem member, counted member⟩
  · rintro ⟨listed, rfl⟩
    obtain ⟨⟨_, m⟩, member, rfl⟩ := List.mem_map.mp listed
    rwa [counted member]

end

/-- A sum faults at one of its parts exactly if the whole is no number: no part lowers it. -/
theorem numberSum_eq (ns : List Nat) : numberSum ns = numberOf (total ns) := by
  suffices sum : ∀ start, start < numberLimit →
      ns.foldlM (fun sum n => numberOf (sum + n)) start = numberOf (start + total ns) by
    exact (sum 0 (by decide)).trans (by rw [Nat.zero_add])
  intro start below
  induction ns generalizing start with
  | nil => exact (numberOf_of_lt below).symm
  | cons n ns ih =>
    rw [List.foldlM_cons, Ordering.total_cons, ← Nat.add_assoc]
    by_cases fits : start + n < numberLimit
    · rw [ok_bind (numberOf_of_lt fits)]
      exact ih _ fits
    · have beyond : ¬ start + n + total ns < numberLimit := by omega
      rw [numberOf, numberOf, if_neg fits, if_neg beyond]
      rfl

section
variable {entries others : List ((Nat × Nat) × Nat)} {tally : Tally} {pair : Nat × Nat} {n : Nat}

theorem sumFor_cons (entry : (Nat × Nat) × Nat) :
    sumFor (entry :: entries) pair = (if entry.1 = pair then entry.2 else 0) + sumFor entries pair := by
  rw [sumFor, List.filter_cons]
  simp only [decide_eq_true_eq]
  split
  · rfl
  · rw [Nat.zero_add, sumFor]

theorem sumFor_flatMap {α : Type} (items : List α) (f : α → List ((Nat × Nat) × Nat)) :
    sumFor (items.flatMap f) pair = total (items.map fun item => sumFor (f item) pair) := by
  simp only [sumFor, List.filter_flatMap, List.map_flatMap, Ordering.total_flatMap]

theorem sumFor_eq_zero (absent : pair ∉ entries.map (·.1)) : sumFor entries pair = 0 := by
  rw [sumFor, List.filter_eq_nil_iff.mpr, List.map_nil, Ordering.total_nil]
  intro entry member same
  exact absent (List.mem_map.mpr ⟨entry, member, of_decide_eq_true same⟩)

private theorem sumFor_pos (positive : ∀ entry ∈ entries, 0 < entry.2) :
    0 < sumFor entries pair ↔ pair ∈ entries.map (·.1) := by
  constructor
  · intro some
    by_contra absent
    exact some.ne' (sumFor_eq_zero absent)
  · intro listed
    obtain ⟨entry, member, rfl⟩ := List.mem_map.mp listed
    apply (positive entry member).trans_le
    exact Ordering.le_total (List.mem_map_of_mem (List.mem_filter.mpr ⟨member, decide_eq_true rfl⟩))

private theorem count_plus (entry : (Nat × Nat) × Nat) :
    (plus tally entry).count pair = tally.count pair + if entry.1 = pair then entry.2 else 0 := by
  rw [plus, count_set]
  by_cases same : entry.1 = pair
  · rw [if_pos same.symm, if_pos same, same]
  · rw [if_neg (Ne.symm same), if_neg same, Nat.add_zero]

theorem tallied_ascending (entries : List ((Nat × Nat) × Nat)) : Ascending (tallied entries) :=
  List.foldlRecOn (motive := Ascending) entries plus .nil fun _ kept _ _ => set_ascending kept

private theorem foldl_plus (entries : List ((Nat × Nat) × Nat)) (tally : Tally) :
    (entries.foldl plus tally).count pair = tally.count pair + sumFor entries pair ∧
      (pair ∈ (entries.foldl plus tally).map (·.1) ↔ pair ∈ tally.map (·.1) ∨ pair ∈ entries.map (·.1)) := by
  induction entries generalizing tally with
  | nil => simp [sumFor, total]
  | cons entry rest ih =>
    rw [List.foldl_cons]
    obtain ⟨counted, listed⟩ := ih (plus tally entry)
    constructor
    · rw [counted, count_plus, sumFor_cons, Nat.add_assoc]
    · rw [listed, plus, mem_pairs_set, List.map_cons, List.mem_cons, or_left_comm, or_assoc]

private theorem mem_pairs_tallied : pair ∈ (tallied entries).map (·.1) ↔ pair ∈ entries.map (·.1) := by
  rw [tallied, (foldl_plus entries []).2]
  simp

/-- Every pair stands with the sum of its entries. -/
theorem mem_tallied : (pair, n) ∈ tallied entries ↔ pair ∈ entries.map (·.1) ∧ n = sumFor entries pair := by
  have counted : (tallied entries).count pair = sumFor entries pair := by
    rw [tallied, (foldl_plus entries []).1]
    exact Nat.zero_add _
  rw [mem_iff_count (tallied_ascending entries), counted, mem_pairs_tallied, eq_comm (a := n)]

theorem mem_tallied_of_pos (positive : ∀ entry ∈ entries, 0 < entry.2) :
    (pair, n) ∈ tallied entries ↔ 0 < n ∧ n = sumFor entries pair := by
  rw [mem_tallied, ← sumFor_pos positive]
  constructor
  · rintro ⟨some, rfl⟩
    exact ⟨some, rfl⟩
  · rintro ⟨some, rfl⟩
    exact ⟨some, rfl⟩

/-- What is counted depends on the sums alone. -/
theorem tallied_congr (positive : ∀ entry ∈ entries, 0 < entry.2) (also : ∀ entry ∈ others, 0 < entry.2)
    (same : ∀ pair, sumFor entries pair = sumFor others pair) : tallied entries = tallied others := by
  have distinct (entries : List ((Nat × Nat) × Nat)) : (tallied entries).Nodup :=
    (pairs_nodup (tallied_ascending entries)).of_map
  refine List.Perm.eq_of_pairwise ?_ (tallied_ascending entries) (tallied_ascending others) ?_
  · intro one two _ _ before behind
    exact absurd behind (pairBefore_asymm before)
  · rw [List.perm_ext_iff_of_nodup (distinct entries) (distinct others)]
    rintro ⟨pair, n⟩
    rw [mem_tallied_of_pos positive, mem_tallied_of_pos also, same]

/-- Sums over what has been counted are sums over all pairs that it may be counted for. -/
theorem total_tallied {f : Nat × Nat → Nat → Nat} (nothing : ∀ pair, f pair 0 = 0) {pairs : Finset (Nat × Nat)}
    (within : ∀ entry ∈ entries, entry.1 ∈ pairs) :
    total ((tallied entries).map fun entry => f entry.1 entry.2) = ∑ pair ∈ pairs, f pair (sumFor entries pair) := by
  have sums : (tallied entries).map (fun entry => f entry.1 entry.2)
      = ((tallied entries).map (·.1)).map fun pair => f pair (sumFor entries pair) := by
    rw [List.map_map]
    apply List.map_congr_left
    rintro ⟨pair, n⟩ member
    rw [(mem_tallied.mp member).2]
    rfl
  have once := pairs_nodup (tallied_ascending entries)
  rw [sums]
  calc total (((tallied entries).map (·.1)).map fun pair => f pair (sumFor entries pair))
      = ∑ pair ∈ ((tallied entries).map (·.1)).toFinset, f pair (sumFor entries pair) :=
        (List.sum_toFinset _ once).symm
    _ = ∑ pair ∈ pairs, f pair (sumFor entries pair) := by
        apply Finset.sum_subset
        · intro pair member
          rw [List.mem_toFinset, mem_pairs_tallied] at member
          obtain ⟨entry, listed, rfl⟩ := List.mem_map.mp member
          exact within entry listed
        · intro pair _ absent
          rw [List.mem_toFinset, mem_pairs_tallied] at absent
          rw [sumFor_eq_zero absent, nothing]

theorem addAll_flatMap {α : Type} (items : List α) (f : α → List ((Nat × Nat) × Nat)) (tally : Tally) :
    items.foldlM (fun tally item => addAll tally (f item)) tally = addAll tally (items.flatMap f) := by
  induction items generalizing tally with
  | nil => rfl
  | cons item rest ih =>
    rw [List.foldlM_cons, List.flatMap_cons]
    exact (bind_congr fun tally => ih tally).trans List.foldlM_append.symm

private theorem addAll_fits (entries : List ((Nat × Nat) × Nat))
    (fits : ∀ pair, tally.count pair + sumFor entries pair < numberLimit) :
    addAll tally entries = .ok (entries.foldl plus tally) := by
  induction entries generalizing tally with
  | nil => rfl
  | cons entry rest ih =>
    have first := fits entry.1
    rw [sumFor_cons, if_pos rfl] at first
    have added : tally.add entry.1 entry.2 = .ok (plus tally entry) :=
      (ok_bind (numberOf_of_lt (by omega))).trans rfl
    rw [addAll, List.foldlM_cons, ok_bind added, List.foldl_cons]
    apply ih
    intro pair
    have bound := fits pair
    rw [sumFor_cons] at bound
    rw [count_plus]
    omega

private theorem addAll_overflows {tally : Tally} (bounded : ∀ pair, tally.count pair < numberLimit)
    (large : numberLimit ≤ tally.count pair + sumFor entries pair) : addAll tally entries = .error .overflow := by
  induction entries generalizing tally with
  | nil =>
    have bound := bounded pair
    simp only [sumFor, List.filter_nil, List.map_nil, Ordering.total_nil] at large
    omega
  | cons entry rest ih =>
    rw [addAll, List.foldlM_cons]
    by_cases below : tally.count entry.1 + entry.2 < numberLimit
    · have added : tally.add entry.1 entry.2 = .ok (plus tally entry) :=
        (ok_bind (numberOf_of_lt below)).trans rfl
      rw [ok_bind added]
      apply ih
      · intro other
        rw [count_plus]
        split
        next same => exact same ▸ below
        next => exact bounded other
      · rw [sumFor_cons] at large
        rw [count_plus]
        omega
    · have faults : tally.add entry.1 entry.2 = .error .overflow := by
        rw [add, numberOf, if_neg below]
        rfl
      rw [faults]
      rfl

/-- Counting returns exactly if every sum is a number. -/
theorem addAll_eq (entries : List ((Nat × Nat) × Nat)) :
    (Fits entries → addAll [] entries = .ok (tallied entries)) ∧
      (¬ Fits entries → addAll [] entries = .error .overflow) := by
  constructor
  · intro fits
    apply addAll_fits
    intro pair
    exact (Nat.zero_add _).symm ▸ fits pair
  · intro large
    simp only [Fits, not_forall, Nat.not_lt] at large
    obtain ⟨pair, large⟩ := large
    have bounded : ∀ other, count [] other < numberLimit := by
      intro other
      change 0 < numberLimit
      decide
    exact addAll_overflows bounded (large.trans (Nat.le_add_left _ _))

end

end Timetable.Proofs.Tallies
