import Timetable.Proofs.RunBounds

/-! Generations that are sure to be bred. The chance of a mutation is a power, of which no more is used than that
it counts as a probability. Where no domain has more than two slots, a mutation draws no word, one word, or also a
number below one, so what a source has to bear can be followed through all its decisions. -/

namespace Timetable.Proofs.SureGenerations
open Draws SearchRuns Generations FilledDomains RunBounds Returned Variation

section
variable {σ α β : Type} [RandomSource σ] {source here : σ} {gene : Slot} {genes : List Slot} {domain : List Slot}
  {domains : List (List Slot)} {draw : Draw σ α} {m n : Nat}

/-- The source yields what `n` mutations draw that have one slot to move to. -/
def bears : Nat → σ → Bool
  | 0, _ => true
  | n + 1, source =>
    [source, (RandomSource.word64 source).2].all fun here =>
      bears n here &&
        match (Draw.below 1 : Draw σ Nat).run here with
        | .ok (_, after) => bears n after
        | .error _ => false

/-- The draw returns, and its source bears as many mutations afterwards. -/
def Leaves (n : Nat) (draw : Draw σ α) (source : σ) : Prop :=
  ∃ value after, draw.run source = .ok (value, after) ∧ bears n after = true

theorem Leaves.pure {value : α} (enough : bears n source = true) : Leaves n (Pure.pure value : Draw σ α) source :=
  ⟨value, source, rfl, enough⟩

theorem Leaves.after {next : α → Draw σ β} {value : α} (ran : draw.run source = .ok (value, here))
    (rest : Leaves n (next value) here) : Leaves n (draw >>= next) source := by
  obtain ⟨result, last, again, left⟩ := rest
  exact ⟨result, last, (bind_run ran).trans again, left⟩

theorem Leaves.bind {next : α → Draw σ β} (first : Leaves m draw source)
    (rest : ∀ value after, draw.run source = .ok (value, after) → bears m after = true → Leaves n (next value) after) :
    Leaves n (draw >>= next) source := by
  obtain ⟨value, after, ran, enough⟩ := first
  exact .after ran (rest value after ran enough)

private theorem bears_moves (among : here ∈ [source, (RandomSource.word64 source).2])
    (enough : bears (n + 1) source = true) :
    bears n here = true ∧ Leaves n (Draw.below 1 : Draw σ Nat) here := by
  rw [bears, List.all_eq_true] at enough
  obtain ⟨stays, moves⟩ := (Bool.and_eq_true _ _).mp (enough here among)
  refine ⟨stays, ?_⟩
  split at moves
  · rename_i number after drawn
    exact ⟨number, after, drawn, moves⟩
  · cases moves

private theorem chance_ran (p : Double) (source : σ) : ∃ hit, ∃ here ∈ [source, (RandomSource.word64 source).2],
    (Draw.chance (clampedProbability p) : Draw σ Bool).run source = .ok (hit, here) := by
  unfold Draw.chance
  rcases Variations.clamped_cases p with ⟨-, certain⟩ | ⟨-, fair⟩
  · rw [if_pos certain]
    exact ⟨true, source, List.mem_cons_self, rfl⟩
  · split
    · exact ⟨true, source, List.mem_cons_self, rfl⟩
    · exact ⟨_, (RandomSource.word64 source).2, by simp, rfl⟩

private theorem choose_leaves (short : domain.length ≤ 2) (inside : gene ∈ domain)
    (among : here ∈ [source, (RandomSource.word64 source).2]) (enough : bears (n + 1) source = true) :
    Leaves n (Draw.choose (domain.filter (· ≠ gene)) : Draw σ (Option Slot)) here := by
  obtain ⟨stays, moves⟩ := bears_moves among enough
  have fewer : (domain.filter (· ≠ gene)).length < domain.length :=
    List.length_filter_lt_length_iff_exists.mpr ⟨gene, inside, by simp⟩
  cases others : domain.filter (· ≠ gene) with
  | nil => exact .pure stays
  | cons other rest =>
    obtain rfl : rest = [] := by
      rw [others, List.length_cons] at fewer
      exact List.length_eq_zero_iff.mp (by omega)
    exact moves.bind fun _ _ _ left => .pure left

def moves (domain : List Slot) : Nat := if domain.length < 2 then 0 else 1

private theorem mutateGene_leaves (p : Double) (short : domain.length ≤ 2) (inside : domain ≠ [] → gene ∈ domain)
    (enough : bears (moves domain + n) source = true) :
    Leaves n (mutateGene (clampedProbability p) gene domain : Draw σ (Slot × Nat)) source := by
  unfold moves at enough
  unfold mutateGene
  split at enough
  · rename_i fixed
    rw [if_pos fixed]
    rw [Nat.zero_add] at enough
    exact .pure enough
  · rename_i free
    rw [if_neg free]
    rw [Nat.add_comm] at enough
    have present : domain ≠ [] := by
      rintro rfl
      exact free Nat.two_pos
    obtain ⟨hit, here, among, drawn⟩ := chance_ran p source
    refine .after drawn ?_
    cases hit with
    | false => exact .pure (bears_moves among enough).1
    | true =>
      refine (choose_leaves short (inside present) among enough).bind fun chosen _ _ left => ?_
      cases chosen with
      | none => exact .pure left
      | some slot => exact .pure left

private theorem mutate_leaves (p : Double) (allowed : Allowed domains genes)
    (short : ∀ domain ∈ domains, domain.length ≤ 2)
    (enough : bears ((domains.map moves).sum + n) source = true) :
    Leaves n (mutate p genes domains : Draw σ (List Slot × Nat)) source := by
  unfold mutate
  induction allowed generalizing source with
  | nil => exact .pure (by rwa [List.map_nil, List.sum_nil, Nat.zero_add] at enough)
  | cons inside _ ih =>
    rw [List.forall_mem_cons] at short
    rw [List.map_cons, List.sum_cons, Nat.add_assoc] at enough
    unfold mutateGenes
    refine (mutateGene_leaves p short.1 inside enough).bind fun _ _ _ enough => ?_
    exact (ih short.2 enough).bind fun _ _ _ left => .pure left

end

section
variable {σ : Type} [RandomSource σ] {search : Search} {source : σ} {children : List (List Slot)}

def allMoves (search : Search) : Nat := search.populationSize * (search.graph.domains.map moves).sum

private theorem children_leave (closed : Closed search.graph)
    (short : ∀ domain ∈ search.graph.domains, domain.length ≤ 2)
    (allowed : ∀ genes ∈ children, Allowed search.graph.domains genes)
    (enough : bears (children.length * (search.graph.domains.map moves).sum) source = true) :
    Leaves 0 (children.mapM fun genes => do
      search.evaluate (← mutate search.mutation genes search.graph.domains).1 : Draw σ (List Candidate)) source := by
  induction children generalizing source with
  | nil => exact .pure rfl
  | cons genes children ih =>
    obtain ⟨kept, allowed⟩ := List.forall_mem_cons.mp allowed
    rw [List.length_cons, Nat.succ_mul, Nat.add_comm] at enough
    rw [List.mapM_cons, bind_assoc]
    refine (mutate_leaves search.mutation kept short enough).bind fun mutated middle ran enough => ?_
    obtain ⟨candidate, returned, -⟩ := evaluate_ok closed ((mutate_yields search.mutation kept).holds ran)
    refine .after (lift_run returned) ?_
    exact (ih allowed enough).bind fun _ _ _ left => .pure left

def firstBrood (search : Search) (source : σ) : Except Fault (Candidate × σ) := do
  let (population, source) ← search.firstPopulation.run source
  let best ← Search.fittestOf population
  let (_, after) ← (brood search population).run source
  return (best, after)

/-- A run begins with the fittest candidate there can be, and its source bears a generation. -/
def beginsBest (search : Search) (source : σ) : Bool :=
  match firstBrood search source with
  | .ok (best, after) => above search best.fitness = ∅ && bears (allMoves search) after
  | .error _ => false

/-- Nothing is fitter than the fittest candidate there can be, so a run that begins with it ends with its first
generation if one without success is enough. -/
theorem exists_only_generation (closed : Closed search.graph) (once : search.params.noImprovement = 1)
    (short : ∀ domain ∈ search.graph.domains, domain.length ≤ 2) (begins : beginsBest search source = true) :
    ∃ start next, Starts search source start ∧ Step search start next ∧
      search.run.run source = .ok (⟨start.best, 1⟩, next.source) := by
  obtain ⟨best, after, bred, top, enough⟩ : ∃ best after, firstBrood search source = .ok (best, after) ∧
      above search best.fitness = ∅ ∧ bears (allMoves search) after = true := by
    unfold beginsBest at begins
    split at begins
    · rename_i best after bred
      exact ⟨best, after, bred, by simpa using begins⟩
    · cases begins
  obtain ⟨⟨population, middle⟩, drawn, bred⟩ := bind_ok bred
  obtain ⟨_, fittest, bred⟩ := bind_ok bred
  obtain ⟨⟨children, _⟩, born, bred⟩ := bind_ok bred
  cases pure_ok bred
  have starts : Starts search source ⟨population, best, 0, middle⟩ := ⟨drawn, fittest, rfl⟩
  have formed := Starts.formed closed starts
  have whole := starts.whole closed
  obtain ⟨size, allowed⟩ := (brood_yields whole.generation).holds born
  obtain ⟨next, rest, ran, -⟩ := children_leave closed short allowed (by rwa [size])
  rw [← bind_run born, ← nextPopulation_eq] at ran
  obtain ⟨found, -, picked, -⟩ := ((nextPopulation_yields closed whole.generation).holds ran).exists_fittest
  have lively : 0 < search.params.noImprovement := Nat.lt_of_lt_of_eq Nat.one_pos once.symm
  have worse : ¬ best.fitness < found.fitness := by
    intro better
    have step : Step search ⟨population, best, 0, middle⟩ ⟨next, found, 0, rest⟩ :=
      .improves lively ran picked better
    have fewer := above_ssubset (value_known (Step.formed closed step formed).best) better
    exact Finset.not_ssubset_empty _ (top ▸ fewer)
  have step : Step search ⟨population, best, 0, middle⟩ ⟨next, best, 1, rest⟩ := .stalls lively ran picked worse
  have tired : ¬ 1 < search.params.noImprovement := Nat.not_lt_of_le once.le
  have goes : Goes search ⟨population, best, 0, middle⟩ [⟨next, best, 1, rest⟩] ⟨next, best, 1, rest⟩ :=
    .on step (.ends tired)
  exact ⟨_, _, starts, step, run_ok_iff.mpr ⟨_, _, _, starts, goes, rfl⟩⟩

end

end Timetable.Proofs.SureGenerations
