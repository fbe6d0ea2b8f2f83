import Timetable.Grouping.Partition
import Mathlib.Data.List.Nodup

/-! Parents never exceed their children, so every path upwards ends in a root. The classes of a
partition are therefore not empty, lie apart, and hold every number below the bound. -/

namespace Timetable.Proofs.Partitions

def Descends (partition : Partition) : Prop := ∀ x, partition.parent x ≤ x

theorem discrete_parent (n x : Nat) : (Partition.discrete n).parent x = x := by
  simp only [Partition.parent, Partition.discrete, Array.getD_eq_getD_getElem?]
  rcases Nat.lt_or_ge x n with inside | outside
  · simp [inside]
  · simp [Nat.not_lt.mpr outside]

theorem discrete_descends (n : Nat) : Descends (.discrete n) := fun x =>
  Nat.le_of_eq (discrete_parent n x)

theorem setParent_parent (partition : Partition) (x up y : Nat) :
    (partition.setParent x up).parent y =
      if x = y ∧ x < partition.size then up else partition.parent y := by
  simp only [Partition.parent, Partition.setParent, Partition.size, Array.getD_eq_getD_getElem?,
    Array.getElem?_setIfInBounds]
  by_cases same : x = y
  · subst y
    by_cases inside : x < partition.parents.size <;> simp [inside]
  · simp [same]

@[simp]
theorem setParent_size (partition : Partition) (x up : Nat) :
    (partition.setParent x up).size = partition.size := by
  simp [Partition.setParent, Partition.size]

theorem Descends.setParent {partition : Partition} (descends : Descends partition) {x up : Nat}
    (below : up ≤ x) : Descends (partition.setParent x up) := by
  intro y
  rw [setParent_parent]
  split
  next chosen => exact chosen.1 ▸ below
  next => exact descends y

structure Found (partition : Partition) (x : Nat) (result : Nat × Partition) : Prop where
  root : partition.parent result.1 = result.1
  le : result.1 ≤ x
  descends : Descends result.2
  size : result.2.size = partition.size

theorem find_found {partition : Partition} (descends : Descends partition) (x : Nat) :
    Found partition x (partition.find x) := by
  induction x using Nat.strongRecOn generalizing partition with
  | ind x ih =>
    rw [Partition.find]
    dsimp only
    split
    next top => exact ⟨top, Nat.le_refl x, descends, rfl⟩
    next above =>
      have up : partition.parent x < x := Nat.lt_of_le_of_ne (descends x) above
      have higher := descends (partition.parent x)
      split
      next below =>
        have halved := ih _ below (descends.setParent (x := x) (Nat.le_of_lt below))
        have passed := Nat.lt_of_le_of_lt halved.le below
        have root := halved.root
        rw [setParent_parent, if_neg (fun same => Nat.ne_of_gt passed same.1)] at root
        exact ⟨root, Nat.le_of_lt passed, halved.descends, by rw [halved.size, setParent_size]⟩
      next => omega

theorem union_kept {partition : Partition} (descends : Descends partition) (a b : Nat) :
    Descends (partition.union a b) ∧ (partition.union a b).size = partition.size := by
  have first := find_found descends a
  have second := find_found first.descends b
  have size := second.size.trans first.size
  simp only [Partition.union]
  split
  · exact ⟨second.descends, size⟩
  · exact ⟨second.descends.setParent (by omega), by rw [setParent_size, size]⟩

theorem root_root {partition : Partition} (descends : Descends partition) (x : Nat) :
    partition.root (partition.root x) = partition.root x := by
  have top := (find_found descends x).root
  change (partition.find (partition.root x)).1 = partition.root x
  rw [Partition.find]
  simp only [Partition.root, top, ite_true]

def tops (partition : Partition) : List Nat :=
  (List.range partition.size).filter fun x => partition.root x = x

private theorem classes_eq (partition : Partition) :
    partition.classes = (tops partition).map fun top =>
      (List.range partition.size).filter fun x => partition.root x = top := by
  simp [Partition.classes, tops, List.filter_map, Function.comp_def]

theorem mem_classes {partition : Partition} {places : List Nat} :
    places ∈ partition.classes ↔ ∃ top < partition.size, partition.root top = top ∧
      places = (List.range partition.size).filter fun x => partition.root x = top := by
  rw [classes_eq, List.mem_map]
  simp only [tops, List.mem_filter, List.mem_range, decide_eq_true_eq, and_assoc]
  simp only [eq_comm (b := places)]

theorem exists_class {partition : Partition} (descends : Descends partition) {x : Nat}
    (inside : x < partition.size) : ∃ places ∈ partition.classes, x ∈ places := by
  have below := (find_found descends x).le
  refine ⟨_, mem_classes.mpr ⟨partition.root x, Nat.lt_of_le_of_lt below inside,
    root_root descends x, rfl⟩, ?_⟩
  simp [inside]

theorem class_ne_nil {partition : Partition} {places : List Nat}
    (member : places ∈ partition.classes) : places ≠ [] := by
  obtain ⟨top, inside, isTop, rfl⟩ := mem_classes.mp member
  apply List.ne_nil_of_mem (a := top)
  simp [inside, isTop]

theorem classes_apart (partition : Partition) :
    partition.classes.Pairwise fun first second => ∀ x ∈ first, x ∉ second := by
  have distinct : (tops partition).Nodup := List.Nodup.filter _ List.nodup_range
  rw [classes_eq, List.pairwise_map]
  refine distinct.imp fun different x first second => different ?_
  have one := (List.mem_filter.mp first).2
  have other := (List.mem_filter.mp second).2
  simp only [decide_eq_true_eq] at one other
  exact one.symm.trans other

end Timetable.Proofs.Partitions
