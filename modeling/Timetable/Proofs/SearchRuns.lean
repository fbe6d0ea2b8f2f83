import Timetable.Proofs.Draws
import Timetable.Proofs.Parents
import Timetable.Proofs.Variations
import Timetable.Search.BestPlan

/-! Whatever is drawn, a search keeps every gene within its domain. The only fault of a run is that no
word is accepted, provided that no edge leaves the graph. -/

namespace Timetable.Proofs.SearchRuns
open Draws Parents Variation Variations

/-- A slot of its domain for every gene; where a domain is empty any slot may stand. -/
def Allowed (domains : List (List Slot)) (genes : List Slot) : Prop :=
  List.Forall₂ (fun domain gene => domain ≠ [] → gene ∈ domain) domains genes

section
variable {σ : Type} [RandomSource σ] {domains : List (List Slot)} {a b c d : List Slot}

private theorem allowed_crosses (crosses : Crosses a b c d) (first : Allowed domains a) (second : Allowed domains b) :
    Allowed domains c ∧ Allowed domains d := by
  induction crosses generalizing domains with
  | ends => exact ⟨first, second⟩
  | keeps x y _ ih =>
    cases first with
    | cons one first =>
      cases second with
      | cons other second =>
        obtain ⟨left, right⟩ := ih first second
        exact ⟨.cons one left, .cons other right⟩
  | exchanges x y _ ih =>
    cases first with
    | cons one first =>
      cases second with
      | cons other second =>
        obtain ⟨left, right⟩ := ih first second
        exact ⟨.cons other left, .cons one right⟩

private theorem cross_yields (rule : CrossoverRule) (first : Allowed domains a) (second : Allowed domains b) :
    Yields (fun children => Allowed domains children.1 ∧ Allowed domains children.2)
      (cross rule a b : Draw σ (List Slot × List Slot)) :=
  (cross_crosses rule (first.length_eq.symm.trans second.length_eq)).mono fun _ crosses =>
    allowed_crosses crosses first second

private theorem allowed_mutates {p : Double} {changed : Nat} (mutates : Mutates p a domains b changed)
    (allowed : Allowed domains a) : Allowed domains b := by
  induction mutates with
  | ends => exact allowed
  | next shifts _ ih =>
    cases allowed with
    | cons gene rest =>
      refine .cons (fun present => ?_) (ih rest)
      cases shifts with
      | stays => exact gene present
      | moves _ member _ => exact member

theorem mutate_yields (p : Double) (allowed : Allowed domains a) :
    Yields (fun mutated => Allowed domains mutated.1) (mutate p a domains : Draw σ (List Slot × Nat)) :=
  (mutate_mutates p a domains).mono fun _ mutates => allowed_mutates mutates allowed

end

def Closed (graph : ConflictGraph) : Prop :=
  ∀ node ∈ graph.nodes, ∀ edge ∈ node.edges, edge.target < graph.size

section
variable {search : Search} {genes : List Slot} {population : List Candidate}

/-- Candidates whose genes keep to their domains, with the penalty and the fitness of these genes. -/
structure Scored (search : Search) (candidate : Candidate) : Prop where
  allowed : Allowed search.graph.domains candidate.genes
  penalty : search.graph.penalty search.weights candidate.genes = .ok candidate.penalty
  fitness : candidate.fitness = fitnessOf candidate.penalty

theorem allowed_length (allowed : Allowed search.graph.domains genes) :
    genes.length = search.graph.size := by
  rw [← allowed.length_eq, ConflictGraph.domains, List.length_map, ConflictGraph.size]

theorem covered (closed : Closed search.graph) (allowed : Allowed search.graph.domains genes) :
    search.graph.isCovered genes.length = true := by
  rw [ConflictGraph.isCovered, List.all_eq_true, allowed_length allowed]
  rintro ⟨node, place⟩ member
  have present := List.mk_mem_zipIdx_iff_getElem?.mp member
  have inside : place < search.graph.size := (List.getElem?_eq_some_iff.mp present).1
  simp only [List.all_eq_true, Bool.and_eq_true, decide_eq_true_eq]
  exact fun edge along => ⟨inside, closed node (List.mem_of_getElem? present) edge along⟩

theorem evaluate_ok (closed : Closed search.graph) (allowed : Allowed search.graph.domains genes) :
    ∃ candidate, search.evaluate genes = .ok candidate ∧ Scored search candidate := by
  let cost := search.graph.cost search.weights genes.toArray / 2
  have penalty : search.graph.penalty search.weights genes = .ok cost := if_pos (covered closed allowed)
  refine ⟨⟨genes, cost, fitnessOf cost⟩, ?_, allowed, penalty, rfl⟩
  rw [Search.evaluate, penalty]
  rfl

private theorem fittestOf_ok (present : population ≠ []) :
    ∃ best ∈ population, Search.fittestOf population = .ok best := by
  obtain ⟨first, others, rfl⟩ := List.exists_cons_of_ne_nil present
  refine ⟨_, Ordering.foldl_choice_mem (fun a b => ?_) _ _, rfl⟩
  split
  · exact .inr rfl
  · exact .inl rfl

private theorem genesAt_ok (scored : ∀ candidate ∈ population, Scored search candidate) {place : Nat}
    (inside : place < population.length) :
    ∃ genes, Search.genesAt population.toArray place = .ok genes ∧
      Allowed search.graph.domains genes := by
  refine ⟨population[place].genes, ?_, (scored _ (List.getElem_mem inside)).allowed⟩
  rw [Search.genesAt, List.getElem?_toArray, List.getElem?_eq_getElem inside]

end

section
variable {σ : Type} [RandomSource σ] {search : Search} {population : List Candidate}

structure Generation (search : Search) (population : List Candidate) : Prop where
  size : population.length = search.populationSize
  scored : ∀ candidate ∈ population, Scored search candidate

private theorem Generation.ne_nil (generation : Generation search population) : population ≠ [] := by
  rintro rfl
  have size := generation.size
  rw [List.length_nil, Search.populationSize] at size
  omega

/-- The fittest candidate of a generation is one of it. -/
theorem Generation.exists_fittest (generation : Generation search population) :
    ∃ best ∈ population, Search.fittestOf population = .ok best ∧ Scored search best := by
  obtain ⟨best, member, fittest⟩ := fittestOf_ok generation.ne_nil
  exact ⟨best, member, fittest, generation.scored best member⟩

theorem randomGenes_yields :
    Yields (Allowed search.graph.domains) (search.randomGenes : Draw σ (List Slot)) := by
  refine YieldsWhile.mapM fun domain _ => ?_
  refine (choose_yields domain).bind fun chosen ok => .pure fun present => ?_
  cases chosen with
  | none => exact absurd rfl (ok.1 present)
  | some slot => exact ok.2 slot rfl

theorem firstPopulation_yields (closed : Closed search.graph) :
    Yields (Generation search) (search.firstPopulation : Draw σ (List Candidate)) := by
  have each : ∀ place ∈ List.range search.populationSize, Yields (Scored search)
      (do search.evaluate (← search.randomGenes) : Draw σ Candidate) := by
    intro _ _
    refine randomGenes_yields.bind fun genes allowed => ?_
    obtain ⟨candidate, returned, scored⟩ := evaluate_ok closed allowed
    exact .lift returned scored
  exact (YieldsWhile.mapM_all each).mono fun population listed => ⟨listed.1.trans List.length_range, listed.2⟩

private theorem offspring_yields (scored : ∀ candidate ∈ population, Scored search candidate) :
    ∀ places : List Nat, (∀ place ∈ places, place < population.length) →
      Yields (fun children => children.length = places.length ∧
          ∀ genes ∈ children, Allowed search.graph.domains genes)
        (search.offspring population.toArray places : Draw σ (List (List Slot)))
  | [], _ => .pure ⟨rfl, by simp⟩
  | [a], inside => by
    obtain ⟨genes, returned, allowed⟩ := genesAt_ok scored (inside a List.mem_cons_self)
    exact (YieldsWhile.lift returned allowed).bind fun genes allowed => .pure ⟨rfl, by simpa using allowed⟩
  | a :: b :: rest, inside => by
    obtain ⟨first, returned, one⟩ := genesAt_ok scored (inside a List.mem_cons_self)
    obtain ⟨second, found, other⟩ :=
      genesAt_ok scored (inside b (List.mem_cons_of_mem _ List.mem_cons_self))
    refine (YieldsWhile.lift returned one).bind fun first one => ?_
    refine (YieldsWhile.lift found other).bind fun second other => ?_
    refine (cross_yields search.params.crossover one other).bind fun pair allowed => ?_
    refine (offspring_yields scored rest fun place member =>
      inside place (List.mem_cons_of_mem _ (List.mem_cons_of_mem _ member))).bind fun children ok => ?_
    refine .pure ⟨by simp [ok.1], ?_⟩
    exact List.forall_mem_cons.mpr ⟨allowed.1, List.forall_mem_cons.mpr ⟨allowed.2, ok.2⟩⟩

/-- The children of a population, before they mutate. -/
def brood (search : Search) (population : List Candidate) : Draw σ (List (List Slot)) := do
  let selected ← Selection.select search.params.selection (population.map (·.fitness))
  search.offspring population.toArray (← Draw.shuffle selected)

theorem nextPopulation_eq (search : Search) (population : List Candidate) :
    (search.nextPopulation population : Draw σ (List Candidate)) =
      (brood search population >>= fun children => children.mapM fun genes => do
        search.evaluate (← mutate search.mutation genes search.graph.domains).1) := by
  simp only [Search.nextPopulation, brood, bind_assoc]

theorem brood_yields (generation : Generation search population) :
    Yields (fun children => children.length = search.populationSize ∧
        ∀ genes ∈ children, Allowed search.graph.domains genes)
      (brood search population : Draw σ (List (List Slot))) := by
  refine (select_yields supply_lively.word _ _).bind fun selected chosen => ?_
  refine (shuffle_yields selected).bind fun pool perm => ?_
  rw [List.length_map] at chosen
  have inside : ∀ place ∈ pool, place < population.length :=
    fun place member => chosen.2 place (perm.mem_iff.mp member)
  refine (offspring_yields generation.scored pool inside).mono fun children born => ⟨?_, born.2⟩
  rw [born.1, perm.length_eq, chosen.1, generation.size]

theorem nextPopulation_yields (closed : Closed search.graph) (generation : Generation search population) :
    Yields (Generation search) (search.nextPopulation population : Draw σ (List Candidate)) := by
  rw [nextPopulation_eq]
  refine (brood_yields generation).bind fun children born => ?_
  have each : ∀ genes ∈ children, Yields (Scored search) (do
      let mutated ← mutate search.mutation genes search.graph.domains
      search.evaluate mutated.1 : Draw σ Candidate) := by
    intro genes member
    refine (mutate_yields _ (born.2 genes member)).bind fun mutated allowed => ?_
    obtain ⟨candidate, returned, scored⟩ := evaluate_ok closed allowed
    exact .lift returned scored
  exact (YieldsWhile.mapM_all each).mono fun next listed => ⟨listed.1.trans born.1, listed.2⟩

/-- A run ends with a candidate that keeps to its domains. Each generation either brings a fitter one,
and fewer doubles are left above it, or lets the run come closer to its end. -/
theorem continueRun_yields (closed : Closed search.graph) (population : List Candidate) (best : Candidate)
    (stale generations : Nat) (generation : Generation search population) (scored : Scored search best) :
    Yields (fun result => Scored search result.best)
      (search.continueRun population best stale generations : Draw σ RunResult) := by
  rw [Search.continueRun]
  split
  · refine (nextPopulation_yields closed generation).bind fun next generation => ?_
    obtain ⟨found, -, fittest, fit⟩ := generation.exists_fittest
    refine (YieldsWhile.lift fittest fit).bind fun found fit => ?_
    by_cases better : best.fitness < found.fitness
    · rw [if_pos better]
      exact continueRun_yields closed next found 0 (generations + 1) generation fit
    · rw [if_neg better]
      exact continueRun_yields closed next best (stale + 1) (generations + 1) generation scored
  · exact .pure scored
termination_by (Search.headroom best.fitness, search.params.noImprovement - stale)
decreasing_by
  · exact Prod.Lex.left _ _ (Search.headroom_lt better)
  · exact Prod.Lex.right _ (by omega)

theorem run_yields (closed : Closed search.graph) :
    Yields (fun result => Scored search result.best) (search.run : Draw σ RunResult) := by
  refine (firstPopulation_yields closed).bind fun population generation => ?_
  obtain ⟨found, -, fittest, fit⟩ := generation.exists_fittest
  refine (YieldsWhile.lift fittest fit).bind fun best scored => ?_
  exact continueRun_yields closed population best 0 0 generation scored

/-- A run without generations ends with the fittest candidate of its first population. -/
theorem run_stopped (stopped : search.params.noImprovement = 0) :
    (search.run : Draw σ RunResult) = do
      let population ← search.firstPopulation
      return ⟨← Search.fittestOf population, 0⟩ := by
  have ended (population : List Candidate) (best : Candidate) :
      (search.continueRun population best 0 0 : Draw σ RunResult) = pure ⟨best, 0⟩ := by
    rw [Search.continueRun, if_neg (by omega)]
  unfold Search.run
  simp only [ended]

private theorem exists_run (closed : Closed search.graph) (stopped : search.params.noImprovement = 0)
    {source : σ} (drawn : (search.firstPopulation.run source).isOk = true) :
    ∃ result, search.run.run source = .ok result := by
  rcases firstPopulation_yields closed source with ⟨⟨population, rest⟩, returned, generation, -⟩ | ⟨failed, -⟩
  · obtain ⟨best, -, fittest, -⟩ := generation.exists_fittest
    have ended : (do return ⟨← Search.fittestOf population, 0⟩ : Draw σ RunResult) = pure ⟨best, 0⟩ := by
      rw [fittest]
      rfl
    refine ⟨(⟨best, 0⟩, rest), ?_⟩
    rw [run_stopped stopped, StateT.run_bind, returned]
    exact congrArg (StateT.run · rest) ended
  · rw [failed] at drawn
    cases drawn

end

private theorem bestRun_mem (first : Search.NumberedRun) (others : List Search.NumberedRun) :
    Search.bestRun first others ∈ first :: others := by
  apply Ordering.foldl_choice_mem
  intro best run
  split
  · exact .inr rfl
  · exact .inl rfl

section
variable {search : Search}

structure Ended (search : Search) (run : Search.NumberedRun) : Prop where
  seeded : search.seededRun run.number = .ok run.result
  scored : Scored search run.result.best

private theorem numberedRun_settles (closed : Closed search.graph) (number : Nat) :
    Settles (¬ Lively (ChaCha.ofSeed search.params.seed.toUInt64 number.toUInt64)) (Ended search)
      (search.numberedRun number) := by
  rcases run_yields closed (ChaCha.ofSeed search.params.seed.toUInt64 number.toUInt64) with
    ⟨result, returned, scored, -⟩ | ⟨failed, tired⟩
  · have seeded : search.seededRun number = .ok result.1 := by
      rw [Search.seededRun, returned]
      rfl
    exact .inl ⟨⟨number, result.1⟩, by rw [Search.numberedRun, seeded]; rfl, seeded, scored⟩
  · refine .inr ⟨?_, tired⟩
    rw [Search.numberedRun, Search.seededRun, failed]
    rfl

/-- Draws return in all runs of a search. -/
def Supplied (search : Search) : Prop :=
  ∀ number < search.runCount, Lively (ChaCha.ofSeed search.params.seed.toUInt64 number.toUInt64)

structure Chooses (search : Search) (plan : Plan) (result : RunResult) : Prop where
  ended : Ended search ⟨plan.run, result⟩
  placements : plan.placements = List.zipWith Placement.mk search.graph.codes result.best.genes
  penalty : plan.penalty = result.best.penalty
  fitness : plan.fitness = result.best.fitness
  generations : plan.generations = result.generations

theorem bestPlan_chooses (closed : Closed search.graph) :
    Settles (¬ Supplied search) (fun plan => ∃ result, Chooses search plan result) search.bestPlan := by
  have each : ∀ number < search.runCount, Settles (¬ Supplied search) (Ended search) (search.numberedRun number) := by
    intro number below
    exact (numberedRun_settles closed number).excused fun tired supplied => tired (supplied number below)
  have present : 0 < search.runCount := Nat.lt_of_lt_of_le Nat.one_pos (Nat.le_max_right _ _)
  have others : ∀ number ∈ (List.range (search.runCount - 1)).map (· + 1),
      Settles (¬ Supplied search) (Ended search) (search.numberedRun number) := by
    intro number member
    obtain ⟨earlier, inside, rfl⟩ := List.mem_map.mp member
    have below := List.mem_range.mp inside
    exact each (earlier + 1) (by omega)
  refine (each 0 present).bind fun first one => ?_
  refine (Settles.mapM others).bind fun others rest => ?_
  have ended : Ended search (Search.bestRun first others) := by
    rcases List.mem_cons.mp (bestRun_mem first others) with same | member
    · rw [same]
      exact one
    · exact rest _ member
  exact .inl ⟨_, rfl, _, ended, rfl, rfl, rfl, rfl⟩

/-- The best plan places every group of the graph in a slot of its domain. -/
theorem bestPlan_settles (closed : Closed search.graph) :
    Settles (¬ Supplied search) (fun plan => ∃ genes, Allowed search.graph.domains genes ∧
        plan.placements = List.zipWith Placement.mk search.graph.codes genes) search.bestPlan := by
  refine (bestPlan_chooses closed).mono fun plan ⟨result, chooses⟩ => ?_
  exact ⟨result.best.genes, chooses.ended.scored.allowed, chooses.placements⟩

theorem exists_bestPlan (closed : Closed search.graph) (stopped : search.params.noImprovement = 0)
    (single : search.runCount = 1) (drawn : (search.firstPopulation.run
      (ChaCha.ofSeed search.params.seed.toUInt64 (0 : Nat).toUInt64)).isOk = true) :
    ∃ plan, search.bestPlan = .ok plan := by
  obtain ⟨result, returned⟩ := exists_run closed stopped drawn
  rw [Search.bestPlan, Search.numberedRun, Search.seededRun, returned, single]
  exact ⟨_, rfl⟩

/-- A single run without generations plans what is fittest among its first draws. -/
theorem bestPlan_stopped (stopped : search.params.noImprovement = 0) (single : search.runCount = 1) :
    search.bestPlan = do
      let (population, _) ← search.firstPopulation.run
        (ChaCha.ofSeed search.params.seed.toUInt64 (0 : Nat).toUInt64)
      let best ← Search.fittestOf population
      return ⟨List.zipWith Placement.mk search.graph.codes best.genes, best.penalty, best.fitness, 0, 0⟩ := by
  rw [Search.bestPlan, Search.numberedRun, Search.seededRun, run_stopped stopped, single, StateT.run_bind]
  cases search.firstPopulation.run (ChaCha.ofSeed search.params.seed.toUInt64 (0 : Nat).toUInt64) with
  | error => rfl
  | ok drawn =>
    cases fittest : Search.fittestOf drawn.1 with
    | error =>
      simp only [bind, Except.bind, fittest]
      rfl
    | ok best =>
      simp only [bind, Except.bind, fittest]
      rfl

end

end Timetable.Proofs.SearchRuns
