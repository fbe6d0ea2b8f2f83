import Mathlib.Data.Finset.Card
import Mathlib.Data.List.Sections
import Timetable.Proofs.Generations

/-! What can be formed from the domains of a search. An empty domain gives every candidate the slot that
stands for none and is never mutated, so a search goes on as if this slot were all its domain. -/

namespace Timetable.Proofs.FilledDomains
open Draws SearchRuns Generations Variation

/-- What a gene may be: a slot of its domain, or the slot for none if the domain is empty. -/
def offered (domain : List Slot) : List Slot := if domain = [] then [.nowhere] else domain

def assignments (graph : ConflictGraph) : List (List Slot) := (graph.domains.map offered).sections

/-- What a fitness compares as: equal numbers have one value, and none stands for what is no number. -/
def valueOf (fitness : Double) : Option UInt64 := if fitness.isNaN then none else some fitness.place

/-- The fitness values of the assignments that can be formed from the domains. -/
def fitnessValues (search : Search) : Finset (Option UInt64) :=
  ((assignments search.graph).filterMap fun genes =>
    (search.evaluate genes).toOption.map (valueOf ·.fitness)).toFinset

/-- The search that has no empty domain any more. -/
def filled (search : Search) : Search :=
  { search with graph := ⟨search.graph.nodes.map fun node => { node with domain := offered node.domain }⟩ }

section
variable {σ : Type} [RandomSource σ] {search : Search} {genes : List Slot} {domain : List Slot}
  {population : List Candidate} {candidate : Candidate}

private theorem offered_ne_nil (domain : List Slot) : offered domain ≠ [] := by
  unfold offered
  split
  · exact List.cons_ne_nil _ _
  · assumption

private theorem domains_filled : (filled search).graph.domains = search.graph.domains.map offered := by
  simp only [ConflictGraph.domains, filled, List.map_map, Function.comp_def]

private theorem size_filled : (filled search).graph.size = search.graph.size := List.length_map _

private theorem closed_filled (closed : Closed search.graph) : Closed (filled search).graph := by
  intro node member edge along
  obtain ⟨before, listed, rfl⟩ := List.mem_map.mp member
  rw [size_filled]
  exact closed before listed edge along

/-- What an assignment costs is a matter of the edges alone. -/
theorem evaluate_filled (genes : List Slot) : (filled search).evaluate genes = search.evaluate genes := by
  have covered (length : Nat) : (filled search).graph.isCovered length = search.graph.isCovered length := by
    simp only [ConflictGraph.isCovered, filled, List.zipIdx_map, List.all_map]
    rfl
  have cost (slots : Array Slot) :
      (filled search).graph.cost search.weights slots = search.graph.cost search.weights slots := by
    simp only [ConflictGraph.cost, filled, List.zipIdx_map, List.foldl_map]
    rfl
  have penalty : (filled search).graph.penalty search.weights genes = search.graph.penalty search.weights genes := by
    unfold ConflictGraph.penalty
    rw [covered, cost]
  unfold Search.evaluate
  exact congrArg (· >>= _) penalty

/-- A gene moves only if there is another slot in its domain. -/
theorem mutateGene_offered (p : Double) (gene : Slot) (domain : List Slot) :
    (mutateGene p gene (offered domain) : Draw σ (Slot × Nat)) = mutateGene p gene domain := by
  unfold offered
  split
  · rename_i empty
    subst empty
    rfl
  · rfl

private theorem mutateGenes_offered (p : Double) (genes : List Slot) (domains : List (List Slot)) :
    (mutateGenes p genes (domains.map offered) : Draw σ (List Slot × Nat)) = mutateGenes p genes domains := by
  induction genes generalizing domains with
  | nil => rfl
  | cons gene genes ih =>
    cases domains with
    | nil => rfl
    | cons domain domains =>
      rw [List.map_cons]
      unfold mutateGenes
      rw [mutateGene_offered, ih]

private theorem offspring_filled (population : Array Candidate) : ∀ places : List Nat,
    ((filled search).offspring population places : Draw σ (List (List Slot))) = search.offspring population places
  | [] => rfl
  | [_] => rfl
  | a :: b :: rest => by
    unfold Search.offspring
    rw [offspring_filled population rest]
    rfl

private theorem nextPopulation_filled (population : List Candidate) :
    ((filled search).nextPopulation population : Draw σ (List Candidate)) = search.nextPopulation population := by
  have chance : (filled search).mutation = search.mutation := by
    unfold Search.mutation
    rw [size_filled]
    rfl
  unfold Search.nextPopulation
  simp only [offspring_filled, evaluate_filled, domains_filled, mutate, mutateGenes_offered, chance]
  rfl

private theorem allowed_filled : Allowed (filled search).graph.domains genes ↔
    List.Forall₂ (fun domain gene => gene ∈ offered domain) search.graph.domains genes := by
  rw [Allowed, domains_filled, List.forall₂_map_left_iff]
  exact ⟨fun allowed => allowed.imp fun domain _ member => member (offered_ne_nil domain),
    fun formed => formed.imp fun _ _ member => fun _ => member⟩

private theorem mem_assignments : genes ∈ assignments search.graph ↔ Allowed (filled search).graph.domains genes := by
  rw [assignments, List.mem_sections, List.forall₂_map_right_iff, allowed_filled]
  exact ⟨fun formed => formed.flip, fun formed => formed.flip⟩

private theorem randomGenes_formed :
    Yields (Allowed (filled search).graph.domains) (search.randomGenes : Draw σ (List Slot)) := by
  refine YieldsWhile.mono (YieldsWhile.mapM fun domain _ => ?_) fun genes => allowed_filled.mpr
  refine (choose_yields domain).bind fun chosen ok => .pure ?_
  unfold offered
  cases chosen with
  | none =>
    by_cases empty : domain = []
    · rw [if_pos empty]
      exact List.mem_singleton_self _
    · exact absurd rfl (ok.1 empty)
  | some slot =>
    have member := ok.2 slot rfl
    rw [if_neg (List.ne_nil_of_mem member)]
    exact member

private theorem firstPopulation_formed (closed : Closed search.graph) :
    Yields (Generation (filled search)) (search.firstPopulation : Draw σ (List Candidate)) := by
  have each : ∀ place ∈ List.range search.populationSize, Yields (Scored (filled search))
      (do search.evaluate (← search.randomGenes) : Draw σ Candidate) := by
    intro _ _
    refine randomGenes_formed.bind fun genes allowed => ?_
    obtain ⟨candidate, returned, scored⟩ := evaluate_ok (closed_filled closed) allowed
    exact .lift ((evaluate_filled genes).symm.trans returned) scored
  exact (YieldsWhile.mapM_all each).mono fun population listed => ⟨listed.1.trans List.length_range, listed.2⟩

variable {now next start last : Moment σ} {later : List (Moment σ)} {source : σ}

theorem Starts.formed (closed : Closed search.graph) (starts : Starts search source start) :
    Whole (filled search) start := by
  have generation := (firstPopulation_formed closed).holds starts.drawn
  exact ⟨generation, scored_fittest generation starts.fittest⟩

theorem Step.filled (step : Step search now next) : Step (filled search) now next := by
  cases step with
  | improves lively bred fittest better =>
    rw [← nextPopulation_filled] at bred
    exact .improves lively bred fittest better
  | stalls lively bred fittest worse =>
    rw [← nextPopulation_filled] at bred
    exact .stalls lively bred fittest worse

theorem Step.formed (closed : Closed search.graph) (step : Step search now next)
    (whole : Whole (FilledDomains.filled search) now) : Whole (FilledDomains.filled search) next :=
  (Step.filled step).whole (closed_filled closed) whole

theorem value_known (scored : Scored (filled search) candidate) :
    valueOf candidate.fitness ∈ fitnessValues search := by
  rw [fitnessValues, List.mem_toFinset, List.mem_filterMap]
  refine ⟨candidate.genes, mem_assignments.mpr scored.allowed, ?_⟩
  rw [← evaluate_filled, Search.evaluate, scored.penalty, scored.fitness]
  rfl

/-- A search with an edge that leaves its graph has no candidates. -/
theorem firstPopulation_astray (astray : ¬ Closed search.graph) (source : σ) :
    (search.firstPopulation : Draw σ (List Candidate)).run source = .error .drawsExhausted ∧ ¬ Lively source ∨
      (search.firstPopulation : Draw σ (List Candidate)).run source = .error .outOfRange := by
  have uncovered : search.graph.isCovered search.graph.size = false := by
    rw [Bool.eq_false_iff]
    intro covered
    refine astray fun node member edge along => ?_
    obtain ⟨place, here⟩ := List.getElem?_of_mem member
    have each := List.all_eq_true.mp covered (node, place) (List.mk_mem_zipIdx_iff_getElem?.mpr here)
    exact (by simpa using List.all_eq_true.mp each edge along : _ ∧ _).2
  have several : search.populationSize = search.populationSize - 1 + 1 := by
    unfold Search.populationSize
    omega
  have genes : Yields (Allowed search.graph.domains) (search.randomGenes : Draw σ (List Slot)) := randomGenes_yields
  unfold Search.firstPopulation
  rw [several, List.range_succ_eq_map, List.mapM_cons]
  rcases genes source with ⟨⟨genes, middle⟩, drawn, allowed, -⟩ | ⟨failed, tired⟩
  · right
    have evaluated : search.evaluate genes = .error .outOfRange := by
      rw [Search.evaluate, ConflictGraph.penalty, allowed_length allowed, uncovered]
      rfl
    rw [bind_assoc, bind_run drawn, evaluated]
    rfl
  · left
    rw [bind_assoc, StateT.run_bind, failed]
    exact ⟨rfl, tired⟩

end

end Timetable.Proofs.FilledDomains
