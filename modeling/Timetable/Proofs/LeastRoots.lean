import Mathlib.Data.List.Induction
import Timetable.Proofs.Roots

/-! What a partition answers after any calls. Every search ends, changes no root, and answers with the least number
that the unions so far have joined with the one it starts from. -/

namespace Timetable.Proofs.LeastRoots
open Partitions Roots

inductive Call where
  | union (a b : Nat)
  | find (x : Nat)

namespace Call

def apply (partition : Partition) : Call → Partition
  | union a b => partition.union a b
  | find x => (partition.find x).2

def Within (n : Nat) : Call → Prop
  | union a b => a < n ∧ b < n
  | find x => x < n

instance (n : Nat) : (call : Call) → Decidable (call.Within n)
  | union a b => inferInstanceAs (Decidable (a < n ∧ b < n))
  | find x => inferInstanceAs (Decidable (x < n))

end Call

def called (n : Nat) (calls : List Call) : Partition := calls.foldl Call.apply (.discrete n)

/-- What the unions among some calls have joined, in however many steps. -/
def Joined (calls : List Call) : Nat → Nat → Prop := Relation.EqvGen fun a b => .union a b ∈ calls

/-- A search from a number, pass by pass: below a root, the number is hung under the parent of its parent, and the
search goes on from there. Nothing outside the partition is looked up. -/
inductive Walks : Partition → Nat → Nat → Nat × Partition → Prop where
  | arrives {partition : Partition} {x : Nat} (inside : x < partition.size) (root : partition.parent x = x) :
      Walks partition x 0 (x, partition)
  | passes {partition halved : Partition} {x passes : Nat} {result : Nat × Partition} (inside : x < partition.size)
      (upInside : partition.parent x < partition.size) (below : partition.parent x ≠ x)
      (halving : halved = partition.setParent x (partition.parent (partition.parent x)))
      (rest : Walks halved (halved.parent x) passes result) : Walks partition x (passes + 1) result

variable {n : Nat} {calls : List Call} {partition : Partition} {x y : Nat}

/-- Each pass comes to a smaller number, so there are at most as many as the number they start from. -/
theorem find_walks (descends : Descends partition) (inside : x < partition.size) :
    ∃ passes ≤ x, Walks partition x passes (partition.find x) := by
  induction x using Nat.strongRecOn generalizing partition with
  | ind x ih =>
    rw [Partition.find]
    dsimp only
    split
    next root => exact ⟨0, Nat.zero_le x, .arrives inside root⟩
    next below =>
      have less : partition.parent x < x := Nat.lt_of_le_of_ne (descends x) below
      have higher : partition.parent (partition.parent x) < x := Nat.lt_of_le_of_lt (descends _) less
      have next : (partition.setParent x (partition.parent (partition.parent x))).parent x
          = partition.parent (partition.parent x) := by
        rw [setParent_parent, if_pos ⟨rfl, inside⟩]
      rw [if_pos higher]
      obtain ⟨passes, few, walks⟩ := ih _ higher (descends.setParent (Nat.le_of_lt higher))
        (by rw [setParent_size]; exact Nat.lt_trans higher inside)
      exact ⟨passes + 1, Nat.lt_of_le_of_lt few higher,
        .passes inside (Nat.lt_trans less inside) below rfl (next.symm ▸ walks)⟩

structure Holds (n : Nat) (calls : List Call) (partition : Partition) : Prop where
  size : partition.size = n
  descends : Descends partition
  classes : ∀ x y, partition.root x = partition.root y ↔ Joined calls x y

private theorem holds_discrete (n : Nat) : Holds n [] (.discrete n) where
  size := Array.size_range
  descends := discrete_descends n
  classes x y := by
    rw [discrete_root, discrete_root]
    constructor
    · rintro rfl
      exact .refl x
    · intro joined
      have alone : Equivalence fun a b : Nat => a = b := eq_equivalence
      exact alone.eqvGen_iff.mp (joined.mono fun a b united => absurd united List.not_mem_nil)

namespace Holds

/-- A call without a union joins nothing. -/
theorem find (holds : Holds n calls partition) (x : Nat) : Holds n (calls ++ [.find x]) (partition.find x).2 where
  size := (find_found holds.descends x).size.trans holds.size
  descends := (find_found holds.descends x).descends
  classes a b := by
    rw [find_root holds.descends, find_root holds.descends, holds.classes]
    have same : (fun a b => Call.union a b ∈ calls ++ [.find x]) = fun a b => .union a b ∈ calls := by
      funext a b
      simp
    rw [Joined, Joined, same]

theorem union (holds : Holds n calls partition) {a b : Nat} (within : a < n ∧ b < n) :
    Holds n (calls ++ [.union a b]) (partition.union a b) where
  size := (union_kept holds.descends a b).2.trans holds.size
  descends := (union_kept holds.descends a b).1
  classes x y := by
    have one := @unions_root partition x y [(a, b)] holds.descends (by simpa [holds.size] using within)
    rw [List.foldl_cons, List.foldl_nil] at one
    rw [one]
    have listed {c d : Nat} (united : .union c d ∈ calls) : Joined (calls ++ [.union a b]) c d :=
      .rel _ _ (List.mem_append_left _ united)
    constructor
    · refine closure_map (f := id) fun c d joined => ?_
      rcases joined with same | single
      · exact closure_map (f := id) (fun _ _ => listed) ((holds.classes c d).mp same)
      · obtain ⟨rfl, rfl⟩ : c = a ∧ d = b := by simpa using single
        exact .rel _ _ (List.mem_append_right _ List.mem_cons_self)
    · refine closure_map (f := id) fun c d united => .rel _ _ ?_
      rcases List.mem_append.mp united with before | last
      · exact .inl ((holds.classes c d).mpr (.rel _ _ before))
      · exact .inr (by simpa using last)

theorem apply (holds : Holds n calls partition) {call : Call} (within : call.Within n) :
    Holds n (calls ++ [call]) (call.apply partition) := by
  cases call with
  | union a b => exact holds.union within
  | find x => exact holds.find x

end Holds

private theorem holds_called (within : ∀ call ∈ calls, call.Within n) : Holds n calls (called n calls) := by
  induction calls using List.reverseRecOn with
  | nil => exact holds_discrete n
  | append_singleton calls call ih =>
    rw [List.forall_mem_append, List.forall_mem_singleton] at within
    rw [called, List.foldl_append]
    exact (ih within.1).apply within.2

/-- Whatever a partition was called for, no parent exceeds its child. A search comes to its end without leaving the
partition, in at most as many passes as the number it starts from, and changes no root; it answers with the root of
its number, the least one that the unions have joined with it. -/
theorem searches_find_least_members (within : ∀ call ∈ calls, call.Within n) :
    (∀ x, (called n calls).parent x ≤ x) ∧
    ∀ x < n, (∃ passes ≤ x, Walks (called n calls) x passes ((called n calls).find x)) ∧
      (∀ y top, Climbs ((called n calls).find x).2 y top ↔ Climbs (called n calls) y top) ∧
      Climbs (called n calls) x ((called n calls).find x).1 ∧
      Joined calls x ((called n calls).find x).1 ∧
      ∀ y, Joined calls x y → ((called n calls).find x).1 ≤ y := by
  have holds := holds_called within
  refine ⟨holds.descends, fun x inside => ?_⟩
  obtain ⟨climbs, same⟩ := find_climbs holds.descends x
  refine ⟨find_walks holds.descends (holds.size.symm ▸ inside), same, climbs, ?_, fun y joined => ?_⟩
  · exact (holds.classes x _).mp (root_root holds.descends x).symm
  · have equal : (called n calls).root x = (called n calls).root y := (holds.classes x y).mpr joined
    exact Nat.le_trans (Nat.le_of_eq equal) (root_le holds.descends y)

def fourCalls : List Call := [.union 4 2, .find 4, .union 5 4, .union 0 3]

theorem search_from_five : (∀ call ∈ fourCalls, call.Within 6) ∧
    (∃ passes ≤ 5, Walks (called 6 fourCalls) 5 passes ((called 6 fourCalls).find 5)) ∧
    Joined fourCalls 5 ((called 6 fourCalls).find 5).1 ∧ ((called 6 fourCalls).find 5).1 ≤ 2 := by
  have within : ∀ call ∈ fourCalls, call.Within 6 := by decide
  obtain ⟨-, searches⟩ := searches_find_least_members within
  obtain ⟨ends, -, -, joined, least⟩ := searches 5 (by decide)
  have first : Joined fourCalls 5 4 := .rel _ _ (by simp [fourCalls])
  have second : Joined fourCalls 4 2 := .rel _ _ (by simp [fourCalls])
  exact ⟨within, ends, joined, least 2 (first.trans _ _ _ second)⟩

end Timetable.Proofs.LeastRoots
