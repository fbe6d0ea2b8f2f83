import Timetable.Proofs.Generations

/-! Genes keep their places. Children have the genes of their parents at every place, and mutation changes a gene to
another slot of its domain or not at all, and counts what it changes. -/

namespace Timetable.Proofs.GenesInPlace
open Draws Variation Variations Generations

variable {a b left right genes mutated : List Slot} {domains : List (List Slot)} {p : Double} {changed : Nat}

/-- Two children that share out the genes of their parents place by place. -/
structure Crossed (rule : CrossoverRule) (a b : List Slot) (children : List Slot × List Slot) : Prop where
  first : children.1.length = a.length
  second : children.2.length = a.length
  inPlace : ∀ i : Nat, children.1[i]? = a[i]? ∧ children.2[i]? = b[i]? ∨ children.1[i]? = b[i]? ∧ children.2[i]? = a[i]?
  /-- Of one cut, what lies before it is kept and all that lies behind it is exchanged. -/
  cut : rule = .onePoint → 2 ≤ a.length → ∃ cut, 1 ≤ cut ∧ cut ≤ a.length - 1 ∧ ∀ i : Nat,
    children.1[i]? = (if i < cut then a else b)[i]? ∧ children.2[i]? = (if i < cut then b else a)[i]?

private theorem crosses_length (crosses : Crosses a b left right) :
    left.length = a.length ∧ right.length = a.length := by
  induction crosses with
  | ends => exact ⟨rfl, rfl⟩
  | keeps x y _ ih => exact ⟨congrArg (· + 1) ih.1, congrArg (· + 1) ih.2⟩
  | exchanges x y _ ih => exact ⟨congrArg (· + 1) ih.1, congrArg (· + 1) ih.2⟩

private theorem crosses_inPlace (crosses : Crosses a b left right) (i : Nat) :
    left[i]? = a[i]? ∧ right[i]? = b[i]? ∨ left[i]? = b[i]? ∧ right[i]? = a[i]? := by
  induction crosses generalizing i with
  | ends => exact .inl ⟨rfl, rfl⟩
  | keeps x y _ ih =>
    cases i with
    | zero => exact .inl ⟨rfl, rfl⟩
    | succ i => exact ih i
  | exchanges x y _ ih =>
    cases i with
    | zero => exact .inr ⟨rfl, rfl⟩
    | succ i => exact ih i

private theorem getElem?_cut {cut : Nat} (inside : cut ≤ a.length) (i : Nat) :
    (a.take cut ++ b.drop cut)[i]? = (if i < cut then a else b)[i]? := by
  have length : (a.take cut).length = cut := List.length_take_of_le inside
  split
  next before => rw [List.getElem?_append_left (by omega), List.getElem?_take_of_lt before]
  next behind =>
    rw [List.getElem?_append_right (by omega), length, List.getElem?_drop, Nat.add_sub_cancel' (Nat.not_lt.mp behind)]

private theorem crossed_of_crosses {rule : CrossoverRule} {children : List Slot × List Slot}
    (crosses : Crosses a b children.1 children.2)
    (cut : rule = .onePoint → 2 ≤ a.length → ∃ cut, 1 ≤ cut ∧ cut ≤ a.length - 1 ∧ ∀ i : Nat,
      children.1[i]? = (if i < cut then a else b)[i]? ∧ children.2[i]? = (if i < cut then b else a)[i]?) :
    Crossed rule a b children :=
  ⟨(crosses_length crosses).1, (crosses_length crosses).2, crosses_inPlace crosses, cut⟩

private theorem crossed_onePoint {children : List Slot × List Slot} (same : a.length = b.length)
    (cuts : a.length < 2 ∧ children = (a, b) ∨ ∃ cut, 1 ≤ cut ∧ cut < a.length ∧
      children = (a.take cut ++ b.drop cut, b.take cut ++ a.drop cut)) : Crossed .onePoint a b children := by
  rcases cuts with ⟨short, rfl⟩ | ⟨cut, first, last, rfl⟩
  · exact crossed_of_crosses (crosses_kept same) fun _ long => absurd long (Nat.not_le.mpr short)
  · refine crossed_of_crosses (crosses_cut same cut) fun _ _ => ⟨cut, first, by omega, fun i => ?_⟩
    exact ⟨getElem?_cut (by omega) i, getElem?_cut (by omega) i⟩

structure Mutated (p : Double) (genes : List Slot) (domains : List (List Slot)) (mutated : List Slot)
    (changed : Nat) : Prop where
  length : mutated.length = genes.length
  /-- Only a gene with a choice changes, and it is still one of its domain. -/
  moves : ∀ (i : Nat) (gene other : Slot), genes[i]? = some gene → mutated[i]? = some other → other ≠ gene →
    ∃ domain : List Slot, domains[i]? = some domain ∧ 2 ≤ domain.length ∧ other ∈ domain
  stays : ∀ (i : Nat) (gene other : Slot) (domain : List Slot), genes[i]? = some gene → mutated[i]? = some other →
    domains[i]? = some domain → gene ∈ domain → other ∈ domain
  counted : changed = (List.range genes.length).countP fun i => genes[i]? ≠ mutated[i]?
  /-- A gene that has somewhere else to go does not stay where that is certain. -/
  certain : 1 ≤ p → ∀ (i : Nat) (gene slot : Slot) (domain : List Slot), genes[i]? = some gene →
    domains[i]? = some domain → 2 ≤ domain.length → slot ∈ domain → slot ≠ gene → mutated[i]? ≠ some gene

private theorem mutates_length (mutates : Mutates p genes domains mutated changed) : mutated.length = genes.length := by
  induction mutates with
  | ends => rfl
  | next _ _ ih => exact congrArg (· + 1) ih

/-- Without a domain a gene stays; within one it shifts or not. -/
theorem mutates_inPlace (mutates : Mutates p genes domains mutated changed) {i : Nat} {gene other : Slot}
    (before : genes[i]? = some gene) (after : mutated[i]? = some other) :
    domains[i]? = none ∧ other = gene ∨ ∃ domain shift, domains[i]? = some domain ∧ Shifts p gene domain other shift := by
  induction mutates generalizing i with
  | ends exhausted =>
    cases before.symm.trans after
    rcases exhausted with rfl | rfl
    · cases before
    · exact .inl ⟨rfl, rfl⟩
  | next shifts _ ih =>
    cases i with
    | zero =>
      cases before
      cases after
      exact .inr ⟨_, _, rfl, shifts⟩
    | succ i => exact ih before after

private theorem shifts_counted {gene other : Slot} {domain : List Slot} {shift : Nat}
    (shifts : Shifts p gene domain other shift) :
    shift = if gene ≠ other then 1 else 0 := by
  cases shifts with
  | stays => exact (if_neg (not_not.mpr rfl)).symm
  | moves _ _ differs => exact (if_pos differs.symm).symm

private theorem mutates_counted (mutates : Mutates p genes domains mutated changed) :
    changed = (List.range genes.length).countP fun i => genes[i]? ≠ mutated[i]? := by
  induction mutates with
  | ends => exact (List.countP_eq_zero.mpr (by simp)).symm
  | next shifts _ ih =>
    rw [List.length_cons, List.range_succ_eq_map, List.countP_cons, List.countP_map, shifts_counted shifts, ih]
    simp [Nat.add_comm, Function.comp_def]

private theorem mutated_of_mutates (mutates : Mutates (clampedProbability p) genes domains mutated changed) :
    Mutated p genes domains mutated changed where
  length := mutates_length mutates
  moves i gene other before after differs := by
    rcases mutates_inPlace mutates before after with ⟨-, same⟩ | ⟨domain, shift, found, shifts⟩
    · exact absurd same differs
    · cases shifts with
      | stays => exact absurd rfl differs
      | moves choice member _ => exact ⟨domain, found, choice, member⟩
  stays i gene other domain before after found member := by
    rcases mutates_inPlace mutates before after with ⟨-, rfl⟩ | ⟨same, shift, known, shifts⟩
    · exact member
    · cases found.symm.trans known
      cases shifts with
      | stays => exact member
      | moves _ elsewhere _ => exact elsewhere
  counted := mutates_counted mutates
  certain sure i gene slot domain before found choice member differs after := by
    rcases mutates_inPlace mutates before after with ⟨none, -⟩ | ⟨same, shift, known, shifts⟩
    · cases found.symm.trans none
    · cases found.symm.trans known
      cases shifts with
      | stays bound =>
        rcases bound (clamped_certain sure) with short | alone
        · omega
        · exact differs (alone slot member)
      | moves _ _ moved => exact moved rfl

section
variable {σ : Type} [RandomSource σ]

/-- Genes stay in place from every source. Only a cut and a mutation ask for acceptable words. -/
theorem genes_stay_in_place (source : σ) :
    (∀ (rule : CrossoverRule) (a b : List Slot), a.length = b.length →
      Settles (rule = .onePoint ∧ ¬ Lively source) (fun result => Crossed rule a b result.1)
        ((cross rule a b).run source)) ∧
    ∀ (p : Double) (genes : List Slot) (domains : List (List Slot)),
      Settles (¬ Lively source) (fun result => Mutated p genes domains result.1.1 result.1.2)
        ((mutate p genes domains).run source) := by
  constructor
  · intro rule a b same
    cases rule with
    | onePoint =>
      exact ((crossOnePoint_cuts same source).mono fun result cuts => crossed_onePoint same cuts.1).excused
        fun tired => ⟨rfl, tired⟩
    | uniform =>
      obtain ⟨children, after, ran, crosses⟩ :=
        (crossUniform_crosses (fun _ _ => trivial) same).returns source
      exact .inl ⟨(children, after), ran, crossed_of_crosses crosses nofun⟩
  · intro p genes domains
    exact (mutate_mutates p genes domains source).mono fun result mutates => mutated_of_mutates mutates.1

end

def morning (day : Nat) : List Slot := [⟨day, 1⟩, ⟨day, 2⟩, ⟨day, 3⟩]

/-- However three genes are cut, the outer ones go apart. A gene that is certain to change takes the other one of two slots. -/
theorem three_genes_go_apart : (morning 1).length = (morning 2).length ∧
    (∃ children after, (cross .onePoint (morning 1) (morning 2)).run Zeros.mk = .ok (children, after) ∧
      children.1[0]? = some ⟨1, 1⟩ ∧ children.1[2]? = some ⟨2, 3⟩) ∧
    ∃ mutated changed after, (mutate 1 (morning 1) [[⟨1, 1⟩, ⟨3, 1⟩]]).run Zeros.mk = .ok ((mutated, changed), after) ∧
      mutated[0]? = some ⟨3, 1⟩ := by
  have same : (morning 1).length = (morning 2).length := rfl
  obtain ⟨crossing, mutation⟩ := genes_stay_in_place Zeros.mk
  refine ⟨same, ?_, ?_⟩
  · rcases crossing .onePoint (morning 1) (morning 2) same with ⟨⟨children, after⟩, ran, crossed⟩ | ⟨-, -, tired⟩
    · obtain ⟨cut, first, last, genes⟩ := crossed.cut rfl (by decide)
      have inner : cut ≤ 2 := last
      refine ⟨children, after, ran, ?_, ?_⟩
      · exact (genes 0).1.trans (by rw [if_pos (Nat.lt_of_succ_le first)]; rfl)
      · exact (genes 2).1.trans (by rw [if_neg (by omega)]; rfl)
    · exact absurd zeros_lively tired
  · rcases mutation 1 (morning 1) [[⟨1, 1⟩, ⟨3, 1⟩]] with ⟨⟨⟨mutated, changed⟩, after⟩, ran, outcome⟩ | ⟨-, tired⟩
    · refine ⟨mutated, changed, after, ran, ?_⟩
      have present : 0 < mutated.length := by
        rw [outcome.length]
        decide
      have found := List.getElem?_eq_getElem present
      have within := outcome.stays 0 _ _ _ rfl found rfl List.mem_cons_self
      have moved := outcome.certain (by decide) 0 ⟨1, 1⟩ ⟨3, 1⟩ _ rfl rfl (by decide) (by decide) (by decide)
      rcases List.mem_pair.mp within with still | other
      · rw [found, still] at moved
        exact absurd rfl moved
      · rw [found, other]
    · exact absurd zeros_lively tired

end Timetable.Proofs.GenesInPlace
