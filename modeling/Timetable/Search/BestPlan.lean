import Timetable.Planning
import Timetable.Random.ChaCha
import Timetable.Search.Run

/-!
The best plan of several runs. Run number `n` draws from stream `n` of the seed, so runs do not
depend on one another.
-/

namespace Timetable

namespace Search

def ofGroups (params : SearchParams) (weights : PenaltyWeights) (groups : List ExamGroup) : Search :=
  ⟨.ofGroups groups, weights, params⟩

def seededRun (search : Search) (number : Nat) : Except Fault RunResult := do
  let source := ChaCha.ofSeed search.params.seed.toUInt64 number.toUInt64
  return (← search.run.run source).1

/-- A run and its number. -/
structure NumberedRun where
  number : Nat
  result : RunResult

/-- The run with the fittest candidate; of equals the first. -/
def bestRun (first : NumberedRun) (others : List NumberedRun) : NumberedRun :=
  others.foldl (fun best run =>
    if best.result.best.fitness < run.result.best.fitness then run else best) first

/-- There is at least one run. -/
def runCount (search : Search) : Nat := max search.params.runs 1

def numberedRun (search : Search) (number : Nat) : Except Fault NumberedRun :=
  (search.seededRun number).map (⟨number, ·⟩)

/-- The plan of the best run, which may still have clashes. -/
def bestPlan (search : Search) : Except Fault Plan := do
  let first ← search.numberedRun 0
  let others ← ((List.range (search.runCount - 1)).map (· + 1)).mapM search.numberedRun
  let chosen := bestRun first others
  let best := chosen.result.best
  return {
    placements := List.zipWith Placement.mk search.graph.codes best.genes
    penalty := best.penalty
    fitness := best.fitness
    run := chosen.number
    generations := chosen.result.generations
  }

/-- The best plan, if it has no clashes. -/
def schedule (search : Search) : Except PlanningError Plan := do
  let plan ← search.bestPlan.mapError .fault
  let clashes ← (search.graph.clashes (plan.placements.map (·.slot))).mapError .fault
  if clashes.isEmpty then return plan else throw (.noValidPlan clashes)

end Search

end Timetable
