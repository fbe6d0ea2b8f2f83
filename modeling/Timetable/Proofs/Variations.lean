import Timetable.Proofs.Draws
import Timetable.Search.Variation

/-! What becomes of genes. Recombination keeps or exchanges the two genes of a place, and mutation keeps a gene or
moves it within its domain. -/

namespace Timetable.Proofs.Variations
open Draws Variation

private theorem eq_one_of_place {p : Double} (same : p.place = Double.place 1) : p = 1 := by
  have one : Double.place 1 = 0xbff0000000000000 := by decide
  rw [one] at same
  have bits : p.bits = 0x3ff0000000000000 := by
    unfold Double.place Double.isNegative Double.magnitude Double.signBit at same
    rw [← UInt64.toNat_inj] at same ⊢
    have bound := p.bits.toNat_lt
    split at same
    · rename_i negative
      simp only [decide_eq_true_eq, UInt64.le_iff_toNat_le] at negative
      simp [UInt64.toNat_sub, UInt64.toNat_mod] at same negative ⊢
      omega
    · rename_i positive
      simp only [decide_eq_true_eq, UInt64.le_iff_toNat_le] at positive
      simp [UInt64.toNat_add, UInt64.toNat_mod] at same positive ⊢
      omega
  cases p
  exact congrArg Double.mk bits

/-- What is not less than 1 counts as 1, and all else as less than that. -/
theorem clamped_cases (p : Double) : 1 ≤ p ∧ clampedProbability p = 1 ∨
    ¬ 1 ≤ p ∧ 0 ≤ clampedProbability p ∧ clampedProbability p < 1 := by
  unfold clampedProbability
  split
  next improper =>
    refine .inr ⟨fun certain => ?_, by decide⟩
    obtain ⟨-, number, least⟩ := Double.le_iff.mp certain
    have below : p < 0 := by simpa [number] using improper
    exact absurd (UInt64.lt_of_le_of_lt least (Double.lt_iff.mp below).2.2) (by decide)
  next proper =>
    obtain ⟨number, nonneg⟩ : p.isNaN = false ∧ ¬ p < 0 := by simpa using proper
    split
    next above =>
      obtain ⟨-, -, less⟩ := Double.lt_iff.mp above
      exact .inl ⟨Double.le_iff.mpr ⟨rfl, number, UInt64.le_of_lt less⟩, rfl⟩
    next small =>
      rw [Double.lt_iff, not_and, not_and, UInt64.not_lt] at nonneg small
      have most := small rfl number
      by_cases same : p.place = Double.place 1
      · exact .inl ⟨Double.le_iff.mpr ⟨rfl, number, UInt64.le_of_eq same.symm⟩, eq_one_of_place same⟩
      · refine .inr ⟨fun certain => ?_, Double.le_iff.mpr ⟨rfl, number, nonneg number rfl⟩,
          Double.lt_iff.mpr ⟨number, rfl, UInt64.lt_of_le_of_ne most same⟩⟩
        exact same (UInt64.le_antisymm most (Double.le_iff.mp certain).2.2)

private theorem fair_clamped (p : Double) : Fair (clampedProbability p) :=
  (clamped_cases p).imp And.right And.right

theorem clamped_certain {p : Double} (certain : 1 ≤ p) : clampedProbability p = 1 :=
  ((clamped_cases p).resolve_right fun uncertain => uncertain.1 certain).2

inductive Crosses : List Slot → List Slot → List Slot → List Slot → Prop where
  | ends : Crosses [] [] [] []
  | keeps {a b c d : List Slot} (x y : Slot) (rest : Crosses a b c d) :
      Crosses (x :: a) (y :: b) (x :: c) (y :: d)
  | exchanges {a b c d : List Slot} (x y : Slot) (rest : Crosses a b c d) :
      Crosses (x :: a) (y :: b) (y :: c) (x :: d)

theorem crosses_kept : ∀ {a b : List Slot}, a.length = b.length → Crosses a b a b
  | [], [], _ => .ends
  | x :: _, y :: _, same => .keeps x y (crosses_kept (Nat.succ.inj same))

private theorem crosses_exchanged : ∀ {a b : List Slot}, a.length = b.length → Crosses a b b a
  | [], [], _ => .ends
  | x :: _, y :: _, same => .exchanges x y (crosses_exchanged (Nat.succ.inj same))

theorem Crosses.append {a b c d a' b' c' d' : List Slot} (first : Crosses a b c d) (second : Crosses a' b' c' d') :
    Crosses (a ++ a') (b ++ b') (c ++ c') (d ++ d') := by
  induction first with
  | ends => exact second
  | keeps x y _ ih => exact .keeps x y ih
  | exchanges x y _ ih => exact .exchanges x y ih

theorem crosses_cut {a b : List Slot} (same : a.length = b.length) (cut : Nat) :
    Crosses a b (a.take cut ++ b.drop cut) (b.take cut ++ a.drop cut) := by
  have heads : (a.take cut).length = (b.take cut).length := by rw [List.length_take, List.length_take, same]
  have tails : (a.drop cut).length = (b.drop cut).length := by rw [List.length_drop, List.length_drop, same]
  have whole := (crosses_kept heads).append (crosses_exchanged tails)
  rwa [List.take_append_drop, List.take_append_drop] at whole

/-- What becomes of a gene, and how many genes that changes. A probability of 1 leaves no gene that can move. -/
inductive Shifts (p : Double) (gene : Slot) (domain : List Slot) : Slot → Nat → Prop where
  | stays (bound : p = 1 → domain.length < 2 ∨ ∀ slot ∈ domain, slot = gene) : Shifts p gene domain gene 0
  | moves {slot : Slot} (choice : 2 ≤ domain.length) (member : slot ∈ domain) (differs : slot ≠ gene) :
      Shifts p gene domain slot 1

inductive Mutates (p : Double) : List Slot → List (List Slot) → List Slot → Nat → Prop where
  | ends {genes : List Slot} {domains : List (List Slot)} (exhausted : genes = [] ∨ domains = []) :
      Mutates p genes domains genes 0
  | next {gene other : Slot} {genes mutated domain : List Slot} {domains : List (List Slot)} {shift changed : Nat}
      (shifts : Shifts p gene domain other shift) (rest : Mutates p genes domains mutated changed) :
      Mutates p (gene :: genes) (domain :: domains) (other :: mutated) (shift + changed)

section
variable {σ : Type} [RandomSource σ] {a b : List Slot}

/-- An inner cut exchanges the tails; where there is none, all is kept. -/
theorem crossOnePoint_cuts (same : a.length = b.length) :
    Yields (fun children => a.length < 2 ∧ children = (a, b) ∨
        ∃ cut, 1 ≤ cut ∧ cut < a.length ∧ children = (a.take cut ++ b.drop cut, b.take cut ++ a.drop cut))
      (crossOnePoint a b : Draw σ (List Slot × List Slot)) := by
  unfold crossOnePoint
  split
  next short => exact .pure (.inl ⟨short, rfl⟩)
  next long =>
    refine (belowLong_yields (by omega)).bind fun drawn below => ?_
    exact .pure (.inr ⟨1 + drawn, by omega, by omega, rfl⟩)

theorem crossUniform_crosses {kept : σ → Prop}
    (words : ∀ source, kept source → kept (RandomSource.word64 source).2) :
    ∀ {a b : List Slot}, a.length = b.length → YieldsWhile kept
      (fun children => Crosses a b children.1 children.2) (crossUniform a b : Draw σ (List Slot × List Slot))
  | [], [], _ => .pure .ends
  | x :: a, y :: b, same => by
    refine (chance_yields words fair_half).bind fun exchange _ => ?_
    refine (crossUniform_crosses words (Nat.succ.inj same)).bind fun children rest => ?_
    cases exchange with
    | true => exact .pure (.exchanges x y rest)
    | false => exact .pure (.keeps x y rest)

theorem cross_crosses (rule : CrossoverRule) (same : a.length = b.length) :
    Yields (fun children => Crosses a b children.1 children.2) (cross rule a b : Draw σ (List Slot × List Slot)) := by
  cases rule with
  | onePoint =>
    refine (crossOnePoint_cuts same).mono ?_
    rintro _ (⟨-, rfl⟩ | ⟨cut, -, -, rfl⟩)
    · exact crosses_kept same
    · exact crosses_cut same cut
  | uniform => exact crossUniform_crosses supply_lively.word same

private theorem mutateGene_shifts {p : Double} (fair : Fair p) (gene : Slot) (domain : List Slot) :
    Yields (fun result => Shifts p gene domain result.1 result.2) (mutateGene p gene domain : Draw σ (Slot × Nat)) := by
  unfold mutateGene
  split
  next short => exact .pure (.stays fun _ => .inl short)
  next long =>
    refine (chance_yields supply_lively.word fair).bind fun hit sure => ?_
    cases hit with
    | false => exact .pure (.stays fun certain => absurd (sure certain) Bool.false_ne_true)
    | true =>
      refine (choose_yields _).bind fun chosen ok => ?_
      cases chosen with
      | none =>
        have alone : domain.filter (· ≠ gene) = [] := by
          by_contra others
          exact ok.1 others rfl
        exact .pure (.stays fun _ => .inr (by simpa using List.filter_eq_nil_iff.mp alone))
      | some slot =>
        obtain ⟨member, differs⟩ := List.mem_filter.mp (ok.2 slot rfl)
        exact .pure (.moves (Nat.not_lt.mp long) member (of_decide_eq_true differs))

private theorem mutateGenes_mutates {p : Double} (fair : Fair p) : ∀ (genes : List Slot) (domains : List (List Slot)),
    Yields (fun result => Mutates p genes domains result.1 result.2)
      (mutateGenes p genes domains : Draw σ (List Slot × Nat))
  | [], _ => .pure (.ends (.inl rfl))
  | _ :: _, [] => .pure (.ends (.inr rfl))
  | gene :: genes, domain :: domains => by
    refine (mutateGene_shifts fair gene domain).bind fun result shifts => ?_
    exact (mutateGenes_mutates fair genes domains).bind fun others rest => .pure (.next shifts rest)

theorem mutate_mutates (p : Double) (genes : List Slot) (domains : List (List Slot)) :
    Yields (fun result => Mutates (clampedProbability p) genes domains result.1 result.2)
      (mutate p genes domains : Draw σ (List Slot × Nat)) :=
  mutateGenes_mutates (fair_clamped p) genes domains

end

end Timetable.Proofs.Variations
