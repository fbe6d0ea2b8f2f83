import Mathlib.Logic.Relation
import Timetable.Proofs.Partitions

/-! The roots of a partition. Halving a path changes no root, and uniting two classes changes the root of
one of them, so what a row of unions joins is the closure of its pairs. -/

namespace Timetable.Proofs.Roots
open Partitions

variable {partition : Partition} {x y a b top other low : Nat} {pairs : List (Nat × Nat)}

inductive Climbs (partition : Partition) : Nat → Nat → Prop where
  | top {x : Nat} (root : partition.parent x = x) : Climbs partition x x
  | up {x top : Nat} (below : partition.parent x ≠ x) (rest : Climbs partition (partition.parent x) top) :
      Climbs partition x top

theorem Climbs.unique (first : Climbs partition x top) (second : Climbs partition x other) : top = other := by
  induction first with
  | top root =>
    cases second with
    | top => rfl
    | up below => exact absurd root below
  | up below _ ih =>
    cases second with
    | top root => exact absurd root below
    | up _ rest => exact ih rest

private theorem Climbs.isRoot (climbs : Climbs partition x top) : partition.parent top = top := by
  induction climbs with
  | top root => exact root
  | up _ _ ih => exact ih

private theorem exists_climbs (descends : Descends partition) (x : Nat) : ∃ top, Climbs partition x top := by
  induction x using Nat.strongRecOn with
  | ind x ih =>
    by_cases root : partition.parent x = x
    · exact ⟨x, .top root⟩
    · obtain ⟨top, rest⟩ := ih _ (Nat.lt_of_le_of_ne (descends x) root)
      exact ⟨top, .up root rest⟩

/-- Numbers beyond the bound are roots. -/
theorem parent_outside (outside : partition.size ≤ x) : partition.parent x = x := by
  unfold Partition.size at outside
  simp [Partition.parent, Array.getD_eq_getD_getElem?, outside]

private theorem inside_of_parent (below : partition.parent x ≠ x) : x < partition.size :=
  Nat.lt_of_not_le fun outside => below (parent_outside outside)

/-- A number may be hung under the parent of its parent without changing where the ways end. -/
theorem Climbs.halve (climbs : Climbs partition y top) (descends : Descends partition)
    (below : partition.parent x ≠ x) :
    Climbs (partition.setParent x (partition.parent (partition.parent x))) y top := by
  have less : partition.parent x < x := Nat.lt_of_le_of_ne (descends x) below
  have higher : partition.parent (partition.parent x) < x := Nat.lt_of_le_of_lt (descends _) less
  have elsewhere {z : Nat} (apart : x ≠ z) :
      (partition.setParent x (partition.parent (partition.parent x))).parent z = partition.parent z := by
    rw [setParent_parent, if_neg fun both => apart both.1]
  have here : (partition.setParent x (partition.parent (partition.parent x))).parent x
      = partition.parent (partition.parent x) := by
    rw [setParent_parent, if_pos ⟨rfl, inside_of_parent below⟩]
  induction climbs with
  | @top y root =>
    have apart : x ≠ y := fun same => below (same ▸ root)
    exact .top ((elsewhere apart).trans root)
  | @up y top climbing rest ih =>
    by_cases same : x = y
    · subst same
      refine .up (by rw [here]; exact Nat.ne_of_lt higher) ?_
      rw [here]
      by_cases root : partition.parent (partition.parent x) = partition.parent x
      · rw [root] at ih ⊢
        exact ih
      · cases ih with
        | top root' => exact absurd ((elsewhere below.symm).symm.trans root') root
        | up _ rest =>
          rw [elsewhere below.symm] at rest
          exact rest
    · refine .up ((elsewhere same).symm ▸ climbing) ?_
      rw [elsewhere same]
      exact ih

private theorem Climbs.halve_iff (descends : Descends partition) (below : partition.parent x ≠ x) :
    Climbs (partition.setParent x (partition.parent (partition.parent x))) y top ↔ Climbs partition y top := by
  refine ⟨fun climbs => ?_, fun climbs => climbs.halve descends below⟩
  obtain ⟨other, before⟩ := exists_climbs descends y
  obtain rfl := climbs.unique (before.halve descends below)
  exact before

/-- Looking for a root finds it, and leaves all roots as they are. -/
theorem find_climbs (descends : Descends partition) (x : Nat) :
    Climbs partition x (partition.find x).1 ∧
      ∀ y top, Climbs (partition.find x).2 y top ↔ Climbs partition y top := by
  induction x using Nat.strongRecOn generalizing partition with
  | ind x ih =>
    rw [Partition.find]
    dsimp only
    split
    next root => exact ⟨.top root, fun _ _ => .rfl⟩
    next below =>
      have less : partition.parent x < x := Nat.lt_of_le_of_ne (descends x) below
      have higher : partition.parent (partition.parent x) < x := Nat.lt_of_le_of_lt (descends _) less
      rw [if_pos higher]
      obtain ⟨climbs, same⟩ := ih _ higher (descends.setParent (x := x) (Nat.le_of_lt higher))
      refine ⟨?_, fun y top => (same y top).trans (Climbs.halve_iff descends below)⟩
      have climbs := (Climbs.halve_iff descends below).mp climbs
      refine .up below ?_
      by_cases root : partition.parent (partition.parent x) = partition.parent x
      · rw [root] at climbs ⊢
        exact climbs
      · exact .up root climbs

private theorem root_eq_iff (descends : Descends partition) : partition.root x = top ↔ Climbs partition x top := by
  obtain ⟨climbs, -⟩ := find_climbs descends x
  exact ⟨fun same => same ▸ climbs, climbs.unique⟩

theorem find_root (descends : Descends partition) (x y : Nat) :
    (partition.find x).2.root y = partition.root y := by
  rw [root_eq_iff (find_found descends x).descends, (find_climbs descends x).2, ← root_eq_iff descends]

theorem root_le (descends : Descends partition) (x : Nat) : partition.root x ≤ x := (find_found descends x).le

private theorem root_lt (descends : Descends partition) (inside : x < partition.size) :
    partition.root x < partition.size :=
  Nat.lt_of_le_of_lt (root_le descends x) inside

private theorem parent_root (descends : Descends partition) (x : Nat) :
    partition.parent (partition.root x) = partition.root x :=
  (find_found descends x).root

/-- Hanging one root under another moves exactly the class of the first. -/
theorem setParent_root (descends : Descends partition) (isTop : partition.parent top = top)
    (isLow : partition.parent low = low) (less : low < top) (inside : top < partition.size) (y : Nat) :
    (partition.setParent top low).root y = if partition.root y = top then low else partition.root y := by
  have here : (partition.setParent top low).parent top = low := by
    rw [setParent_parent, if_pos ⟨rfl, inside⟩]
  have elsewhere {z : Nat} (apart : top ≠ z) : (partition.setParent top low).parent z = partition.parent z := by
    rw [setParent_parent, if_neg fun both => apart both.1]
  have hung : Climbs (partition.setParent top low) top low := by
    refine .up (by rw [here]; exact Nat.ne_of_lt less) ?_
    rw [here]
    exact .top ((elsewhere (Nat.ne_of_gt less)).trans isLow)
  rw [root_eq_iff (descends.setParent (Nat.le_of_lt less))]
  have climbs : Climbs partition y (partition.root y) := (root_eq_iff descends).mp rfl
  generalize partition.root y = root at climbs
  induction climbs with
  | @top y root =>
    split
    next same => exact same ▸ hung
    next apart => exact .top ((elsewhere (Ne.symm apart)).trans root)
  | @up y root climbing rest ih =>
    have apart : top ≠ y := fun same => climbing (same ▸ isTop)
    refine .up ((elsewhere apart).symm ▸ climbing) ?_
    rw [elsewhere apart]
    exact ih

/-- Uniting joins the classes of two numbers and leaves all others. -/
theorem union_root (descends : Descends partition) (insideA : a < partition.size) (insideB : b < partition.size) :
    (partition.union a b).root x = (partition.union a b).root y ↔
      partition.root x = partition.root y ∨
        (partition.root x = partition.root a ∧ partition.root y = partition.root b) ∨
        (partition.root x = partition.root b ∧ partition.root y = partition.root a) := by
  have first := find_found descends a
  have second := find_found first.descends b
  have size : ((partition.find a).2.find b).2.size = partition.size := second.size.trans first.size
  have kept (z : Nat) : ((partition.find a).2.find b).2.root z = partition.root z :=
    (find_root first.descends b z).trans (find_root descends a z)
  have rootB : ((partition.find a).2.find b).1 = partition.root b := find_root descends a b
  have isRoot (z : Nat) : ((partition.find a).2.find b).2.parent (partition.root z) = partition.root z := by
    rw [← kept]
    exact parent_root second.descends z
  have rootA : (partition.find a).1 = partition.root a := rfl
  simp only [Partition.union, rootA, rootB]
  split
  next same =>
    rw [kept, kept]
    constructor
    · exact .inl
    · rintro (equal | ⟨one, other⟩ | ⟨one, other⟩)
      · exact equal
      · rw [one, other, same]
      · rw [one, other, same]
  next apart =>
    have insideRoot (z : Nat) (inside : z < partition.size) :
        partition.root z < ((partition.find a).2.find b).2.size := size ▸ root_lt descends inside
    have greatest : max (partition.root a) (partition.root b) = partition.root a ∧
          min (partition.root a) (partition.root b) = partition.root b ∨
        max (partition.root a) (partition.root b) = partition.root b ∧
          min (partition.root a) (partition.root b) = partition.root a := by omega
    have less : min (partition.root a) (partition.root b) < max (partition.root a) (partition.root b) := by omega
    rcases greatest with ⟨top, low⟩ | ⟨top, low⟩ <;> rw [top, low] at less ⊢
    · rw [setParent_root second.descends (isRoot a) (isRoot b) less (insideRoot a insideA),
        setParent_root second.descends (isRoot a) (isRoot b) less (insideRoot a insideA), kept, kept]
      grind
    · rw [setParent_root second.descends (isRoot b) (isRoot a) less (insideRoot b insideB),
        setParent_root second.descends (isRoot b) (isRoot a) less (insideRoot b insideB), kept, kept]
      grind

/-- Where a map takes every pair to things that are joined, it takes joined things to joined things. -/
theorem closure_map {α β : Type} {R : α → α → Prop} {S : β → β → Prop} {f : α → β}
    (within : ∀ a b, R a b → Relation.EqvGen S (f a) (f b)) {a b : α} (joined : Relation.EqvGen R a b) :
    Relation.EqvGen S (f a) (f b) := by
  induction joined with
  | rel a b related => exact within a b related
  | refl a => exact .refl _
  | symm _ _ _ ih => exact ih.symm _ _
  | trans _ _ _ _ _ first second => exact first.trans _ _ _ second

/-- What stands together after some unions stood together before, or is joined by their pairs. -/
theorem unions_root (descends : Descends partition)
    (inside : ∀ pair ∈ pairs, pair.1 < partition.size ∧ pair.2 < partition.size) :
    (pairs.foldl (fun joined pair => joined.union pair.1 pair.2) partition).root x
        = (pairs.foldl (fun joined pair => joined.union pair.1 pair.2) partition).root y ↔
      Relation.EqvGen (fun a b => partition.root a = partition.root b ∨ (a, b) ∈ pairs) x y := by
  induction pairs generalizing partition with
  | nil =>
    have same : Equivalence fun a b => partition.root a = partition.root b ∨ (a, b) ∈ ([] : List (Nat × Nat)) :=
      ⟨fun _ => .inl rfl, fun joined => .inl (joined.resolve_right List.not_mem_nil).symm, fun first second =>
        .inl ((first.resolve_right List.not_mem_nil).trans (second.resolve_right List.not_mem_nil))⟩
    rw [same.eqvGen_iff]
    simp
  | cons pair pairs ih =>
    rw [List.forall_mem_cons] at inside
    obtain ⟨united, size⟩ := union_kept descends pair.1 pair.2
    rw [List.foldl_cons, ih united (size ▸ inside.2)]
    have root (a b : Nat) := @union_root partition a b pair.1 pair.2 descends inside.1.1 inside.1.2
    have together {a b : Nat} (same : partition.root a = partition.root b) :
        Relation.EqvGen (fun a b => partition.root a = partition.root b ∨ (a, b) ∈ pair :: pairs) a b :=
      .rel _ _ (.inl same)
    have first : Relation.EqvGen (fun a b => partition.root a = partition.root b ∨ (a, b) ∈ pair :: pairs)
        pair.1 pair.2 := .rel _ _ (.inr List.mem_cons_self)
    constructor
    · refine closure_map (f := id) fun a b joined => ?_
      rcases joined with same | listed
      · rcases (root a b).mp same with same | ⟨one, other⟩ | ⟨one, other⟩
        · exact together same
        · exact (together one).trans _ _ _ (first.trans _ _ _ (together other.symm))
        · exact (together one).trans _ _ _ ((first.symm _ _).trans _ _ _ (together other.symm))
      · exact .rel _ _ (.inr (List.mem_cons_of_mem _ listed))
    · refine closure_map (f := id) fun a b joined => ?_
      rcases joined with same | listed
      · exact .rel _ _ (.inl ((root a b).mpr (.inl same)))
      · rcases List.mem_cons.mp listed with rfl | listed
        · exact .rel _ _ (.inl ((root a b).mpr (.inr (.inl ⟨rfl, rfl⟩))))
        · exact .rel _ _ (.inr listed)

theorem discrete_root (n x : Nat) : (Partition.discrete n).root x = x :=
  (root_eq_iff (discrete_descends n)).mpr (.top (discrete_parent n x))

end Timetable.Proofs.Roots
