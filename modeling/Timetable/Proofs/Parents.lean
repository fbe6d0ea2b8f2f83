import Timetable.Proofs.Draws
import Timetable.Proofs.Ordering
import Timetable.Search.Selection

/-! Every rule of selection answers with as many places as there are candidates, and each of them is
the place of a candidate. -/

namespace Timetable.Proofs.Parents
open Selection Draws

def Chosen (n : Nat) (places : List Nat) : Prop := places.length = n ∧ ∀ place ∈ places, place < n

private theorem landing?_lt {amount : Double} {place found : Nat} {weights : List Double}
    (landed : landing? amount place weights = some found) : found < place + weights.length := by
  induction weights generalizing amount place with
  | nil => cases landed
  | cons weight rest ih =>
    unfold landing? at landed
    split at landed
    · cases landed
      simp
    · have later := ih landed
      rw [List.length_cons]
      omega

private theorem lastPositive_lt {weights : List Double} (present : weights ≠ []) :
    lastPositive weights < weights.length := by
  unfold lastPositive
  split
  · rename_i weight place last
    have member := (List.mem_filter.mp (List.mem_of_getLast? last)).1
    exact (List.getElem?_eq_some_iff.mp (List.mk_mem_zipIdx_iff_getElem?.mp member)).1
  · have positive := List.length_pos_iff.mpr present
    omega

/-- A pointer stays or moves on, and leaves no sector out. -/
theorem advance_moves (pointer : Double) (place : Nat) (covered : Double) (rest : List Double) :
    place ≤ (advance pointer place covered rest).1 ∧
      (advance pointer place covered rest).1 + (advance pointer place covered rest).2.2.length
        = place + rest.length := by
  induction rest generalizing place covered with
  | nil => exact ⟨Nat.le_refl _, rfl⟩
  | cons weight rest ih =>
    unfold advance
    split
    · obtain ⟨later, length⟩ := ih (place + 1) (covered + weight)
      rw [List.length_cons]
      omega
    · exact ⟨Nat.le_refl _, rfl⟩

/-- As many sectors as there are pointers, none before the first, none after the last, and none passed again. -/
structure Onward (first last left : Nat) (found : List Nat) : Prop where
  length : found.length = left
  within : ∀ place ∈ found, first ≤ place ∧ place ≤ last
  ascending : found.Pairwise (· ≤ ·)

private theorem pointers_onward (start step : Double) (place : Nat) (covered : Double) (rest : List Double)
    (k left : Nat) : Onward place (place + rest.length) left (pointers start step place covered rest k left) := by
  induction left generalizing place covered rest k with
  | zero => exact ⟨rfl, nofun, .nil⟩
  | succ left ih =>
    obtain ⟨later, length⟩ := advance_moves (start + .ofNat k * step) place covered rest
    unfold pointers
    generalize advance (start + .ofNat k * step) place covered rest = reached at later length
    have further := ih reached.1 reached.2.1 reached.2.2 (k + 1)
    rw [length] at further
    refine ⟨congrArg (· + 1) further.length, List.forall_mem_cons.mpr ⟨by omega, fun found member => ?_⟩,
      .cons (fun found member => (further.within found member).1) further.ascending⟩
    have within := further.within found member
    omega

theorem linearRanking_length (n : Nat) (pressure : Double) : (linearRanking n pressure).length = n := by
  unfold linearRanking
  split
  · simp [*]
  · simp

def ranked (fitness : List Double) : List (UInt64 × Nat) :=
  fitness.zipIdx.map fun (value, position) => (value.totalPlace, position)

theorem ranked_positions (fitness : List Double) : (ranked fitness).map (·.2) = List.range fitness.length := by
  rw [ranked, List.map_map, List.range_eq_range', ← List.zipIdx_map_snd 0 fitness]
  rfl

theorem ranking_perm (fitness : List Double) : (ranking fitness).Perm (List.range fitness.length) := by
  rw [← ranked_positions]
  exact (Ordering.stableSort_perm _).map _

private theorem ranking_length (fitness : List Double) : (ranking fitness).length = fitness.length := by
  rw [(ranking_perm fitness).length_eq, List.length_range]

private theorem ranking_lt {fitness : List Double} {place : Nat} (member : place ∈ ranking fitness) :
    place < fitness.length :=
  List.mem_range.mp ((ranking_perm fitness).mem_iff.mp member)

/-- Ranks below the number of candidates are all looked up, and nothing is drawn for that. -/
theorem mapM_placeOfRank {σ : Type} {fitness : List Double} {ranks : List Nat}
    (inside : ∀ drawn ∈ ranks, drawn < fitness.length) :
    ∃ places, List.Forall₂ (fun drawn place => (ranking fitness)[drawn]? = some place) ranks places ∧
      (ranks.mapM fun drawn => liftM (placeOfRank (ranking fitness).toArray drawn) : Draw σ (List Nat))
        = pure places := by
  induction ranks with
  | nil => exact ⟨[], .nil, rfl⟩
  | cons drawn ranks ih =>
    obtain ⟨below, others⟩ := List.forall_mem_cons.mp inside
    obtain ⟨places, looked, same⟩ := ih others
    rw [← ranking_length] at below
    have found := List.getElem?_eq_getElem below
    have returned : placeOfRank (ranking fitness).toArray drawn = .ok (ranking fitness)[drawn] := by
      rw [placeOfRank, List.getElem?_toArray, found]
    refine ⟨(ranking fitness)[drawn] :: places, .cons found looked, ?_⟩
    rw [List.mapM_cons, returned, same]
    rfl

/-- Candidates of ranks are candidates. -/
theorem looked_chosen {fitness : List Double} {ranks places : List Nat} (chosen : Chosen fitness.length ranks)
    (looked : List.Forall₂ (fun drawn place => (ranking fitness)[drawn]? = some place) ranks places) :
    Chosen fitness.length places := by
  have below : List.Forall₂ (fun _ place => place < fitness.length) ranks places :=
    looked.imp fun _ _ found => ranking_lt (List.mem_of_getElem? found)
  obtain ⟨length, inside⟩ := forall₂_right below
  exact ⟨length.trans chosen.1, inside⟩

section
variable {σ : Type} [RandomSource σ] {kept : σ → Prop}
  (words : ∀ source, kept source → kept (RandomSource.word64 source).2)
include words

private theorem spin_yields {weights : List Double} (present : weights ≠ []) (total : Double) :
    YieldsWhile kept (· < weights.length) (spin weights total : Draw σ Nat) := by
  refine (unit_yields words).bind fun drawn _ => .pure ?_
  cases landed : landing? (drawn * total) 0 weights with
  | none => exact lastPositive_lt present
  | some place => simpa using landing?_lt landed

theorem roulette_yields (weights : List Double) :
    YieldsWhile kept (Chosen weights.length) (roulette weights : Draw σ (List Nat)) :=
  YieldsWhile.mapM_all fun _ member => spin_yields words (List.ne_nil_of_mem member) _

theorem stochasticUniversal_yields (weights : List Double) :
    YieldsWhile kept (fun places => Chosen weights.length places ∧ places.Pairwise (· ≤ ·))
      (stochasticUniversal weights : Draw σ (List Nat)) := by
  cases weights with
  | nil => exact .pure ⟨⟨rfl, nofun⟩, .nil⟩
  | cons first rest =>
    refine (unit_yields words).bind fun drawn _ => .pure ?_
    have onward := pointers_onward (drawn * (Double.sum (first :: rest) / .ofNat (first :: rest).length))
      (Double.sum (first :: rest) / .ofNat (first :: rest).length) 0 first rest 0 (first :: rest).length
    refine ⟨⟨onward.length, fun found member => ?_⟩, onward.ascending⟩
    have within := onward.within found member
    rw [List.length_cons]
    omega

private theorem rank_yields (fitness : List Double) (pressure : Double) :
    YieldsWhile kept (Chosen fitness.length) (rank fitness pressure : Draw σ (List Nat)) := by
  refine (roulette_yields words _).bind fun ranks chosen => ?_
  rw [linearRanking_length] at chosen
  obtain ⟨places, looked, same⟩ := @mapM_placeOfRank σ _ _ chosen.2
  rw [same]
  exact .pure (looked_chosen chosen looked)

theorem select_yields (rule : SelectionRule) (fitness : List Double) :
    YieldsWhile kept (Chosen fitness.length) (select rule fitness : Draw σ (List Nat)) := by
  cases rule with
  | roulette => exact roulette_yields words fitness
  | stochasticUniversal => exact (stochasticUniversal_yields words fitness).mono fun _ => And.left
  | rank pressure => exact rank_yields words fitness pressure

end

end Timetable.Proofs.Parents
