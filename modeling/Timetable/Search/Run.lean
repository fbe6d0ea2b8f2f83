import Timetable.Search.ConflictGraph
import Timetable.Search.Selection
import Timetable.Search.Variation

/-!
Search for an assignment by generations of candidates. A run keeps the best candidate it has seen
and ends after a number of generations that brought no better one. It always ends: a better
candidate has a greater fitness, and there are only so many doubles.
-/

namespace Timetable

variable {σ : Type} [RandomSource σ]

structure Candidate where
  genes : List Slot
  penalty : Double
  fitness : Double

/-- The best candidate of a run and the generations it took. -/
structure RunResult where
  best : Candidate
  generations : Nat

/-- What a search works on. -/
structure Search where
  graph : ConflictGraph
  weights : PenaltyWeights
  params : SearchParams

namespace Search

/-- A candidate with the penalty and the fitness of its genes. -/
def evaluate (search : Search) (genes : List Slot) : Except Fault Candidate := do
  let penalty ← search.graph.penalty search.weights genes
  return ⟨genes, penalty, fitnessOf penalty⟩

/-- A random slot of each domain; an empty domain offers none. -/
def randomGenes (search : Search) : Draw σ (List Slot) :=
  search.graph.domains.mapM fun domain => do
    return (← Draw.choose domain).getD Slot.nowhere

/-- At least two candidates. -/
def populationSize (search : Search) : Nat := max search.params.population 2

def firstPopulation (search : Search) : Draw σ (List Candidate) :=
  (List.range search.populationSize).mapM fun _ => do
    search.evaluate (← search.randomGenes)

/-- The candidate of greatest fitness; of equals the first, and the first of all if it has a fitness
that is no number. -/
def fittest (first : Candidate) (others : List Candidate) : Candidate :=
  others.foldl (fun best candidate =>
    if best.fitness < candidate.fitness then candidate else best) first

def fittestOf (population : List Candidate) : Except Fault Candidate :=
  match population with
  | [] => .error .outOfRange
  | first :: others => .ok (fittest first others)

/-- The genes of the candidate at a place. -/
def genesAt (population : Array Candidate) (place : Nat) : Except Fault (List Slot) :=
  match population[place]? with
  | some candidate => .ok candidate.genes
  | none => .error .outOfRange

/-- Children of the parents in pairs; a last parent without partner is taken over. -/
def offspring (search : Search) (population : Array Candidate) : List Nat → Draw σ (List (List Slot))
  | a :: b :: rest => do
    let (first, second) ← Variation.cross search.params.crossover
      (← genesAt population a) (← genesAt population b)
    return first :: second :: (← offspring search population rest)
  | [a] => return [← genesAt population a]
  | [] => return []

def mutation (search : Search) : Double :=
  Variation.mutationProbability search.params.targetMutation search.graph.size

def nextPopulation (search : Search) (population : List Candidate) : Draw σ (List Candidate) := do
  let selected ← Selection.select search.params.selection (population.map (·.fitness))
  let pool ← Draw.shuffle selected
  let children ← search.offspring population.toArray pool
  let chance := search.mutation
  let domains := search.graph.domains
  children.mapM fun genes => do
    let (genes, _) ← Variation.mutate chance genes domains
    search.evaluate genes

/-- A bound on how many doubles lie above a fitness. -/
def headroom (fitness : Double) : Nat := UInt64.size - fitness.place.toNat

theorem headroom_lt {worse better : Double} (h : worse < better) :
    headroom better < headroom worse := by
  have places := UInt64.lt_iff_toNat_lt.mp (Double.lt_iff.mp h).2.2
  have bound := better.place.toNat_lt_size
  unfold headroom
  omega

/-- Goes on from a population until `noImprovement` generations in a row have brought nothing
better than `best`. -/
def continueRun (search : Search) (population : List Candidate) (best : Candidate)
    (stale generations : Nat) : Draw σ RunResult := do
  if stale < search.params.noImprovement then
    let next ← search.nextPopulation population
    let found ← fittestOf next
    if best.fitness < found.fitness then
      search.continueRun next found 0 (generations + 1)
    else search.continueRun next best (stale + 1) (generations + 1)
  else return ⟨best, generations⟩
termination_by (headroom best.fitness, search.params.noImprovement - stale)
decreasing_by
  · exact Prod.Lex.left _ _ (headroom_lt (by assumption))
  · exact Prod.Lex.right _ (by omega)

/-- One run from a random population. -/
def run (search : Search) : Draw σ RunResult := do
  let population ← search.firstPopulation
  search.continueRun population (← fittestOf population) 0 0

end Search

end Timetable
