import Timetable.Config
import Timetable.Random.Draw
import Timetable.Sort

/-!
Selection of parents by fitness. Every rule answers with as many places as there are candidates,
whatever numbers the fitness values are, and also if they are none.
-/

namespace Timetable

variable {σ : Type} [RandomSource σ]

namespace Selection

/-- The first place whose weight covers what is left of the drawn amount. -/
def landing? (amount : Double) (place : Nat) : List Double → Option Nat
  | [] => none
  | weight :: rest =>
    if amount < weight then some place else landing? (amount - weight) (place + 1) rest

/-- The place taken where rounding leaves an amount over: the last one of positive weight, and the
last one if no weight is positive. -/
def lastPositive (weights : List Double) : Nat :=
  match (weights.zipIdx.filter (0 < ·.1)).getLast? with
  | some (_, place) => place
  | none => weights.length - 1

/-- One turn of a wheel whose sectors are as wide as the weights, and `total` together. -/
def spin (weights : List Double) (total : Double) : Draw σ Nat := do
  let amount := (← Draw.unit) * total
  return match landing? amount 0 weights with
    | some place => place
    | none => lastPositive weights

/-- As many turns of the wheel as there are weights. -/
def roulette (weights : List Double) : Draw σ (List Nat) :=
  let total := Double.sum weights
  weights.mapM fun _ => spin weights total

/-- Where a pointer lands that moves on from a sector: the sector, the weights up to its end and the
weights after it. -/
def advance (pointer : Double) (place : Nat) (covered : Double) :
    List Double → Nat × Double × List Double
  | [] => (place, covered, [])
  | weight :: rest =>
    if covered ≤ pointer then advance pointer (place + 1) (covered + weight) rest
    else (place, covered, weight :: rest)

/-- The sectors of pointers number `k` and following, a fixed step apart. -/
def pointers (start step : Double) (place : Nat) (covered : Double) (rest : List Double) (k : Nat) :
    Nat → List Nat
  | 0 => []
  | left + 1 =>
    let (place, covered, rest) := advance (start + .ofNat k * step) place covered rest
    place :: pointers start step place covered rest (k + 1) left

/-- One turn of a wheel with evenly spaced pointers, one for every weight. -/
def stochasticUniversal (weights : List Double) : Draw σ (List Nat) :=
  match weights with
  | [] => return []
  | first :: rest => do
    let step := Double.sum weights / .ofNat weights.length
    let start := (← Draw.unit) * step
    return pointers start step 0 first rest 0 weights.length

/-- Selective pressure lies from 1 to 2. -/
def clampedPressure (pressure : Double) : Double :=
  if pressure.isNaN || pressure < 1 then 1 else if 2 < pressure then 2 else pressure

/-- Probabilities by rank, the best first, falling evenly and adding up to 1. -/
def linearRanking (n : Nat) (pressure : Double) : List Double :=
  if n = 1 then [1]
  else
    let pressure := clampedPressure pressure
    (List.range n).map fun place =>
      (pressure - (2 * pressure - 2) * .ofNat place / .ofNat (n - 1)) / .ofNat n

/-- The places of all candidates, the fittest first; of equals the earlier. -/
def ranking (fitness : List Double) : List Nat :=
  let ranked := fitness.zipIdx.map fun (value, place) => (value.totalPlace, place)
  (stableSort (fun a b => b.1 ≤ a.1) ranked).map (·.2)

/-- The place of the candidate of a rank. -/
def placeOfRank (order : Array Nat) (rank : Nat) : Except Fault Nat :=
  match order[rank]? with
  | some place => .ok place
  | none => .error .outOfRange

def rank (fitness : List Double) (pressure : Double) : Draw σ (List Nat) := do
  let order := (ranking fitness).toArray
  let ranks ← roulette (linearRanking fitness.length pressure)
  ranks.mapM fun rank => liftM (placeOfRank order rank)

/-- The places of the parents of the next generation. -/
def select (rule : SelectionRule) (fitness : List Double) : Draw σ (List Nat) :=
  match rule with
  | .roulette => roulette fitness
  | .stochasticUniversal => stochasticUniversal fitness
  | .rank pressure => rank fitness pressure

end Selection

end Timetable
