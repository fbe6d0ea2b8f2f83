import Timetable.Proofs.DoubleSizes
import Timetable.Proofs.Parents

/-! Which parents are selected. Every rule answers from every source, whatever the fitness values are: pointers that are
evenly spaced never go back, and ranks are looked up in one order of all candidates, the greatest fitness first. -/

namespace Timetable.Proofs.SelectedParents
open Selection Draws Parents DoubleSigns DoubleSizes

/-- The total order of patterns. Negative ones come first; among them magnitudes fall, among the others they rise. -/
inductive Under : Double → Double → Prop where
  | signs {x y : Double} (first : x.isNegative = true) (second : y.isNegative = false) : Under x y
  | negative {x y : Double} (first : x.isNegative = true) (second : y.isNegative = true)
      (falls : y.magnitude.toNat < x.magnitude.toNat) : Under x y
  | positive {x y : Double} (first : x.isNegative = false) (second : y.isNegative = false)
      (rises : x.magnitude.toNat < y.magnitude.toNat) : Under x y

section
variable {x y : Double}

private theorem magnitude_lt (x : Double) : x.magnitude.toNat < 2 ^ 63 := by
  rw [magnitude_toNat]
  exact Nat.mod_lt _ (by decide)

private theorem eq_of_magnitude (sign : x.isNegative = y.isNegative) (size : x.magnitude.toNat = y.magnitude.toNat) :
    x = y := by
  rw [magnitude_toNat, magnitude_toNat] at size
  rw [Bool.eq_iff_iff, isNegative_iff, isNegative_iff] at sign
  have first := x.bits.toNat_lt
  have second := y.bits.toNat_lt
  have bits : x.bits = y.bits := UInt64.toNat_inj.mp (by omega)
  cases x
  cases y
  exact congrArg Double.mk bits

/-- Patterns of the negative sign lie below the middle, the greatest magnitude lowest. -/
theorem totalPlace_toNat (x : Double) : x.totalPlace.toNat =
    if x.isNegative = true then 2 ^ 63 - 1 - x.magnitude.toNat else 2 ^ 63 + x.magnitude.toNat := by
  have small := magnitude_lt x
  have before : (Double.signBit - 1).toNat = 2 ^ 63 - 1 := rfl
  unfold Double.totalPlace
  split
  · rw [UInt64.toNat_sub_of_le, before]
    rw [UInt64.le_iff_toNat_le, before]
    omega
  · rw [UInt64.toNat_add, signBit_toNat]
    omega

/-- Any two patterns are ordered, unless they are the same. -/
theorem under_or_eq (atMost : x.totalPlace ≤ y.totalPlace) : Under x y ∨ x = y ∧ y.totalPlace ≤ x.totalPlace := by
  have first := magnitude_lt x
  have second := magnitude_lt y
  rw [UInt64.le_iff_toNat_le, totalPlace_toNat, totalPlace_toNat] at atMost
  cases left : x.isNegative with
  | true =>
    cases right : y.isNegative with
    | false => exact .inl (.signs left right)
    | true =>
      rw [left, right, if_pos rfl, if_pos rfl] at atMost
      rcases Nat.lt_or_eq_of_le (show y.magnitude.toNat ≤ x.magnitude.toNat by omega) with falls | same
      · exact .inl (.negative left right falls)
      · obtain rfl := eq_of_magnitude (left.trans right.symm) same.symm
        exact .inr ⟨rfl, UInt64.le_refl _⟩
  | false =>
    cases right : y.isNegative with
    | true =>
      rw [left, right, if_neg Bool.false_ne_true, if_pos rfl] at atMost
      omega
    | false =>
      rw [left, right, if_neg Bool.false_ne_true, if_neg Bool.false_ne_true] at atMost
      rcases Nat.lt_or_eq_of_le (show x.magnitude.toNat ≤ y.magnitude.toNat by omega) with rises | same
      · exact .inl (.positive left right rises)
      · obtain rfl := eq_of_magnitude (left.trans right.symm) same
        exact .inr ⟨rfl, UInt64.le_refl _⟩

end

/-- All candidates in order, the greatest fitness first, and of equals the earlier. -/
structure Ranks (fitness : List Double) (order : List Nat) : Prop where
  all : order.Perm (List.range fitness.length)
  descends : order.Pairwise fun a b => ∀ x y, fitness[a]? = some x → fitness[b]? = some y →
    Under y x ∨ x = y ∧ a < b

private theorem mem_ranked {fitness : List Double} {place : UInt64} {position : Nat}
    (member : (place, position) ∈ ranked fitness) :
    ∃ value, fitness[position]? = some value ∧ value.totalPlace = place := by
  obtain ⟨⟨value, position⟩, listed, same⟩ := List.mem_map.mp member
  cases same
  exact ⟨value, List.mk_mem_zipIdx_iff_getElem?.mp listed, rfl⟩

private theorem ranking_ranks (fitness : List Double) : Ranks fitness (ranking fitness) := by
  refine ⟨ranking_perm fitness, ?_⟩
  have total : Std.Total fun a b : UInt64 × Nat => decide (b.1 ≤ a.1) = true :=
    ⟨fun a b => by simpa using UInt64.le_total b.1 a.1⟩
  have ordered : IsTrans (UInt64 × Nat) fun a b => decide (b.1 ≤ a.1) = true :=
    ⟨fun a b c first second => by simpa using UInt64.le_trans (of_decide_eq_true second) (of_decide_eq_true first)⟩
  have increasing : (ranked fitness).Pairwise fun a b => a.2 < b.2 := by
    rw [← List.pairwise_map, ranked_positions]
    exact List.pairwise_lt_range
  rw [ranking, List.pairwise_map]
  refine (Ordering.stableSort_stable increasing).imp_of_mem ?_
  rintro ⟨_, a⟩ ⟨_, b⟩ first second ⟨atMost, stays⟩ x y here there
  obtain ⟨_, found, rfl⟩ := mem_ranked (Ordering.mem_stableSort.mp first)
  obtain ⟨_, other, rfl⟩ := mem_ranked (Ordering.mem_stableSort.mp second)
  cases found.symm.trans here
  cases other.symm.trans there
  rcases under_or_eq (of_decide_eq_true atMost) with under | ⟨same, atLeast⟩
  · exact .inl under
  · exact .inr ⟨same.symm, stays (decide_eq_true atLeast)⟩

/-- What is no number and carries no sign comes first, the negative zero after the other one, and equals stay in
order. -/
example : ranking [1, ⟨0x7ff8000000000000⟩, -0, 0, 1] = [1, 0, 4, 3, 2] := by decide

section
variable {σ : Type} [RandomSource σ]

structure Selected (rule : SelectionRule) (fitness : List Double) (source : σ) (places : List Nat) (after : σ) :
    Prop where
  length : places.length = fitness.length
  inside : ∀ place ∈ places, place < fitness.length
  onward : rule = .stochasticUniversal → places.Pairwise (· ≤ ·)
  /-- The wheel is turned for ranks, and each of them is looked up. -/
  ranked : ∀ pressure, rule = .rank pressure → ∃ order ranks, Ranks fitness order ∧
    (roulette (linearRanking fitness.length pressure)).run source = .ok (ranks, after) ∧
    List.Forall₂ (fun rank place => order[rank]? = some place) ranks places

private theorem rank_selected (fitness : List Double) (pressure : Double) (source : σ) :
    ∃ places after, (rank fitness pressure).run source = .ok (places, after) ∧
      Selected (.rank pressure) fitness source places after := by
  obtain ⟨ranks, after, turned, chosen⟩ :=
    (roulette_yields (fun _ _ => trivial) (linearRanking fitness.length pressure)).returns source
  rw [linearRanking_length] at chosen
  obtain ⟨places, looked, same⟩ := @mapM_placeOfRank σ _ _ chosen.2
  obtain ⟨length, inside⟩ := looked_chosen chosen looked
  refine ⟨places, after, ?_, length, inside, nofun, ?_⟩
  · rw [rank, bind_run turned, same]
    rfl
  · rintro _ ⟨⟩
    exact ⟨_, ranks, ranking_ranks fitness, turned, looked⟩

/-- Parents are selected by every rule, from every source and whatever the fitness values are. -/
theorem selection_is_total (rule : SelectionRule) (fitness : List Double) (source : σ) :
    ∃ places after, (select rule fitness).run source = .ok (places, after) ∧
      Selected rule fitness source places after := by
  cases rule with
  | roulette =>
    obtain ⟨places, after, ran, length, inside⟩ := (roulette_yields (fun _ _ => trivial) fitness).returns source
    exact ⟨places, after, ran, length, inside, nofun, nofun⟩
  | stochasticUniversal =>
    obtain ⟨places, after, ran, ⟨length, inside⟩, onward⟩ :=
      (stochasticUniversal_yields (fun _ _ => trivial) fitness).returns source
    exact ⟨places, after, ran, length, inside, fun _ => onward, nofun⟩
  | rank pressure => exact rank_selected fitness pressure source

end

end Timetable.Proofs.SelectedParents
