import Timetable.Sort
import Mathlib.Data.List.Sort

/-! Sorting rearranges a list and loses nothing, the extremes of a list are members of it, and sums are
made of their parts. -/

namespace Timetable.Proofs.Ordering

variable {α : Type} {le : α → α → Bool}

private theorem insertSorted_eq (x : α) (xs : List α) :
    insertSorted le x xs = xs.orderedInsert (fun a b => le a b = true) x := by
  induction xs with
  | nil => rfl
  | cons y rest ih => rw [insertSorted, List.orderedInsert_cons, ih]

private theorem stableSort_eq (xs : List α) :
    stableSort le xs = xs.insertionSort (fun a b => le a b = true) := by
  induction xs with
  | nil => rfl
  | cons x rest ih =>
    rw [List.insertionSort_cons, ← ih, ← insertSorted_eq]
    rfl

theorem stableSort_perm (xs : List α) : (stableSort le xs).Perm xs := by
  rw [stableSort_eq]
  exact List.perm_insertionSort _ xs

@[simp]
theorem mem_stableSort {x : α} {xs : List α} : x ∈ stableSort le xs ↔ x ∈ xs :=
  (stableSort_perm xs).mem_iff

theorem stableSort_pairwise [Std.Total fun a b => le a b = true] [IsTrans α fun a b => le a b = true]
    (xs : List α) : (stableSort le xs).Pairwise fun a b => le a b = true := by
  rw [stableSort_eq]
  exact List.pairwise_insertionSort _ xs

section
variable [total : Std.Total fun a b => le a b = true] [transitive : IsTrans α fun a b => le a b = true]
include total transitive

private theorem insertSorted_stable {R : α → α → Prop} {x : α} {xs : List α} (before : ∀ y ∈ xs, R x y)
    (sorted : xs.Pairwise fun a b => le a b = true ∧ (le b a = true → R a b)) :
    (insertSorted le x xs).Pairwise fun a b => le a b = true ∧ (le b a = true → R a b) := by
  induction sorted with
  | nil => exact List.pairwise_singleton _ _
  | @cons y rest first sorted ih =>
    obtain ⟨here, later⟩ := List.forall_mem_cons.mp before
    rw [insertSorted]
    split
    next less =>
      refine .cons (List.forall_mem_cons.mpr ⟨⟨less, fun _ => here⟩, fun z member => ?_⟩) (.cons first sorted)
      exact ⟨transitive.trans _ _ _ less (first z member).1, fun _ => later z member⟩
    next more =>
      refine .cons (fun z member => ?_) (ih later)
      rw [insertSorted_eq, List.mem_orderedInsert] at member
      rcases member with rfl | member
      · exact ⟨(total.total z y).resolve_left more, fun less => absurd less more⟩
      · exact first z member

/-- Things that are equal to the order stay as they were among each other. -/
theorem stableSort_stable {R : α → α → Prop} {xs : List α} (before : xs.Pairwise R) :
    (stableSort le xs).Pairwise fun a b => le a b = true ∧ (le b a = true → R a b) := by
  induction before with
  | nil => exact .nil
  | cons first _ ih => exact insertSorted_stable (fun y member => first y (mem_stableSort.mp member)) ih

end

theorem stableSort_ascending (ns : List Nat) : (stableSort (· ≤ ·) ns).Pairwise (· ≤ ·) := by
  have total : Std.Total fun a b : Nat => decide (a ≤ b) = true := ⟨by simp; omega⟩
  have ordered : IsTrans Nat fun a b => decide (a ≤ b) = true := ⟨by simp; omega⟩
  apply (stableSort_pairwise ns).imp
  intro a b atMost
  exact of_decide_eq_true atMost

theorem increasing_of_nodup {ns : List Nat} (sorted : ns.Pairwise (· ≤ ·)) (distinct : ns.Nodup) :
    ns.Pairwise (· < ·) := by
  apply (sorted.and distinct).imp
  rintro a b ⟨atMost, differs⟩
  omega

/-- An order that tells any two things apart. -/
structure Linear {κ : Type} (le : κ → κ → Bool) : Prop where
  total : ∀ a b, le a b = true ∨ le b a = true
  trans : ∀ a b c, le a b = true → le b c = true → le a c = true
  antisymm : ∀ a b, le a b = true → le b a = true → a = b

theorem linear_nat : Linear fun a b : Nat => decide (a ≤ b) where
  total a b := by simpa using Nat.le_total a b
  trans a b c := by simpa using Nat.le_trans
  antisymm a b := by simpa using Nat.le_antisymm

theorem linear_string : Linear fun a b : String => decide (a ≤ b) where
  total a b := by simpa using String.le_total a b
  trans a b c := by simpa using String.le_trans
  antisymm a b := by simpa using String.le_antisymm

theorem stableSort_keys_pairwise {κ : Type} {le : κ → κ → Bool} (linear : Linear le) (key : α → κ) (xs : List α) :
    (stableSort (fun a b => le (key a) (key b)) xs).Pairwise fun a b => le (key a) (key b) = true := by
  have total : Std.Total fun a b => le (key a) (key b) = true := ⟨fun a b => linear.total (key a) (key b)⟩
  have trans : IsTrans α fun a b => le (key a) (key b) = true :=
    ⟨fun a b c => linear.trans (key a) (key b) (key c)⟩
  exact stableSort_pairwise xs

/-- Things with distinct keys are sorted to the same list from wherever they start. -/
theorem stableSort_rearranged {κ : Type} {le : κ → κ → Bool} (linear : Linear le) (key : α → κ) {xs ys : List α}
    (same : xs.Perm ys) (distinct : (xs.map key).Nodup) :
    stableSort (fun a b => le (key a) (key b)) xs = stableSort (fun a b => le (key a) (key b)) ys := by
  refine List.Perm.eq_of_pairwise ?_ (stableSort_keys_pairwise linear key xs) (stableSort_keys_pairwise linear key ys)
    ((stableSort_perm xs).trans (same.trans (stableSort_perm ys).symm))
  intro a b first second atMost atLeast
  rw [mem_stableSort] at first second
  exact List.inj_on_of_nodup_map distinct first (same.mem_iff.mpr second) (linear.antisymm _ _ atMost atLeast)

theorem eraseDups_nodup [BEq α] [LawfulBEq α] (xs : List α) : xs.eraseDups.Nodup := by
  induction size : xs.length using Nat.strongRecOn generalizing xs with
  | ind n ih =>
    cases xs with
    | nil => exact List.nodup_nil
    | cons x rest =>
      rw [List.eraseDups_cons, List.nodup_cons]
      constructor
      · rw [List.mem_eraseDups]
        simp
      · have smaller := List.length_filter_le (fun y => !y == x) rest
        exact ih _ (by rw [← size, List.length_cons]; omega) _ rfl

@[simp]
theorem mem_ascending {n : Nat} {ns : List Nat} : n ∈ ascending ns ↔ n ∈ ns := by
  rw [ascending, mem_stableSort, List.mem_eraseDups]

theorem ascending_sorted (ns : List Nat) : (ascending ns).Pairwise (· < ·) := by
  have distinct : (ascending ns).Nodup := (stableSort_perm _).nodup_iff.mpr (eraseDups_nodup ns)
  exact increasing_of_nodup (stableSort_ascending _) distinct

@[simp]
theorem mem_alphabetical {name : String} {names : List String} : name ∈ alphabetical names ↔ name ∈ names := by
  rw [alphabetical, mem_stableSort, List.mem_eraseDups]

theorem alphabetical_nodup (names : List String) : (alphabetical names).Nodup :=
  (stableSort_perm _).nodup_iff.mpr (eraseDups_nodup names)

private theorem insertSorted_map {β : Type} {f : α → β} {le' : β → β → Bool}
    (same : ∀ a b, le' (f a) (f b) = le a b) (item : α) (items : List α) :
    insertSorted le' (f item) (items.map f) = (insertSorted le item items).map f := by
  induction items with
  | nil => rfl
  | cons head rest ih =>
    simp only [List.map_cons, insertSorted, same]
    split
    · rfl
    · rw [ih, List.map_cons]

theorem stableSort_map {β : Type} {f : α → β} {le' : β → β → Bool}
    (same : ∀ a b, le' (f a) (f b) = le a b) (items : List α) :
    stableSort le' (items.map f) = (stableSort le items).map f := by
  induction items with
  | nil => rfl
  | cons item rest ih =>
    simp only [stableSort, List.map_cons, List.foldr_cons] at ih ⊢
    rw [ih, insertSorted_map same]

theorem stableSort_keys_ascending (key : α → Nat) (items : List α) :
    ((stableSort (fun a b => key a ≤ key b) items).map key).Pairwise (· ≤ ·) := by
  rw [← @stableSort_map _ _ _ key (fun a b => decide (a ≤ b)) (fun _ _ => rfl)]
  exact stableSort_ascending _

private theorem foldl_choice_map {β : Type} {f : α → β} {le' : β → β → Bool} (same : ∀ a b, le' (f a) (f b) = le a b)
    (x : α) (xs : List α) : (xs.map f).foldl (fun best y => if le' best y then y else best) (f x)
      = f (xs.foldl (fun best y => if le best y then y else best) x) := by
  induction xs generalizing x with
  | nil => rfl
  | cons y rest ih =>
    rw [List.map_cons, List.foldl_cons, List.foldl_cons, ← ih, same]
    split <;> rfl

theorem lastMax?_map {β : Type} {f : α → β} {le' : β → β → Bool} (same : ∀ a b, le' (f a) (f b) = le a b)
    (xs : List α) : lastMax? le' (xs.map f) = (lastMax? le xs).map f := by
  cases xs with
  | nil => rfl
  | cons x rest => exact congrArg some (foldl_choice_map same x rest)

theorem foldl_choice_mem {choose : α → α → α} (either : ∀ a b, choose a b = a ∨ choose a b = b)
    (x : α) (xs : List α) : xs.foldl choose x ∈ x :: xs := by
  induction xs generalizing x with
  | nil => exact List.mem_singleton_self x
  | cons y rest ih =>
    rw [List.foldl_cons]
    rcases List.mem_cons.mp (ih (choose x y)) with chosen | later
    · rw [chosen]
      rcases either x y with same | same <;> rw [same] <;> simp
    · exact List.mem_cons_of_mem _ (List.mem_cons_of_mem _ later)

theorem lastMax?_mem {x : α} {xs : List α} (greatest : lastMax? le xs = some x) : x ∈ xs := by
  cases xs with
  | nil => cases greatest
  | cons first rest =>
    cases greatest
    apply foldl_choice_mem
    intro a b
    split
    · exact Or.inr rfl
    · exact Or.inl rfl

theorem firstMin?_mem {x : α} {xs : List α} (least : firstMin? le xs = some x) : x ∈ xs := by
  cases xs with
  | nil => cases least
  | cons first rest =>
    cases least
    apply foldl_choice_mem
    intro a b
    split
    · exact Or.inl rfl
    · exact Or.inr rfl

/-- What is chosen from a list bounds all of it, if each choice bounds what it is made from. -/
theorem foldl_choice_bound {R : α → α → Prop} {choose : α → α → α} (refl : ∀ a, R a a)
    (trans : ∀ a b c, R a b → R b c → R a c) (bound : ∀ a b, R (choose a b) a ∧ R (choose a b) b) (x : α) (xs : List α) :
    ∀ y ∈ x :: xs, R (xs.foldl choose x) y := by
  induction xs generalizing x with
  | nil =>
    intro y member
    obtain rfl := List.mem_singleton.mp member
    exact refl y
  | cons z rest ih =>
    rw [List.foldl_cons]
    have chosen := ih (choose x z) _ List.mem_cons_self
    obtain ⟨first, second⟩ := bound x z
    exact List.forall_mem_cons.mpr ⟨trans _ _ _ chosen first, List.forall_mem_cons.mpr
      ⟨trans _ _ _ chosen second, fun y later => ih _ y (List.mem_cons_of_mem _ later)⟩⟩

section
variable [total : Std.Total fun a b => le a b = true] [transitive : IsTrans α fun a b => le a b = true]
include total transitive

theorem le_lastMax? {x : α} {xs : List α} (greatest : lastMax? le xs = some x) : ∀ y ∈ xs, le y x = true := by
  cases xs with
  | nil => cases greatest
  | cons first rest =>
    cases greatest
    refine foldl_choice_bound (R := fun a b => le b a = true) (fun a => (total.total a a).elim id id)
      (fun a b c one other => transitive.trans _ _ _ other one) ?_ first rest
    intro a b
    split
    next less => exact ⟨less, (total.total b b).elim id id⟩
    next more => exact ⟨(total.total a a).elim id id, (total.total a b).resolve_left more⟩

theorem firstMin?_le {x : α} {xs : List α} (least : firstMin? le xs = some x) : ∀ y ∈ xs, le x y = true := by
  cases xs with
  | nil => cases least
  | cons first rest =>
    cases least
    refine foldl_choice_bound (R := fun a b => le a b = true) (fun a => (total.total a a).elim id id)
      transitive.trans ?_ first rest
    intro a b
    split
    next less => exact ⟨(total.total a a).elim id id, less⟩
    next more => exact ⟨(total.total a b).resolve_left more, (total.total b b).elim id id⟩

end

theorem firstMin?_eq_none {xs : List α} : firstMin? le xs = none ↔ xs = [] := by
  cases xs <;> simp [firstMin?]

theorem lastMax?_eq_none {xs : List α} : lastMax? le xs = none ↔ xs = [] := by
  cases xs <;> simp [lastMax?]

@[simp]
theorem total_nil : total [] = 0 := rfl

@[simp]
theorem total_cons (n : Nat) (ns : List Nat) : total (n :: ns) = n + total ns := rfl

@[simp]
theorem total_append (first second : List Nat) : total (first ++ second) = total first + total second := by
  induction first with
  | nil => rw [List.nil_append, total_nil, Nat.zero_add]
  | cons n rest ih => rw [List.cons_append, total_cons, ih, total_cons, Nat.add_assoc]

theorem total_flatMap (items : List α) (f : α → List Nat) :
    total (items.flatMap f) = total (items.map fun item => total (f item)) := by
  induction items with
  | nil => rfl
  | cons item rest ih => rw [List.flatMap_cons, total_append, ih, List.map_cons, total_cons]

theorem total_perm {first second : List Nat} (same : first.Perm second) : total first = total second :=
  same.sum_nat

theorem le_total {n : Nat} {ns : List Nat} (listed : n ∈ ns) : n ≤ total ns := by
  obtain ⟨front, back, rfl⟩ := List.append_of_mem listed
  rw [total_append, total_cons]
  omega

theorem total_eq_zero_iff {ns : List Nat} : total ns = 0 ↔ ∀ n ∈ ns, n = 0 := by
  induction ns with
  | nil => exact ⟨fun _ => nofun, fun _ => rfl⟩
  | cons n rest ih => rw [total_cons, Nat.add_eq_zero_iff, ih, List.forall_mem_cons]

end Timetable.Proofs.Ordering
