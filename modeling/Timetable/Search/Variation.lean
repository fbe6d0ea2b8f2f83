import Timetable.Config
import Timetable.Random.Draw

/-!
Recombination and mutation of assignments. A gene is the slot of one group and keeps its place.
-/

namespace Timetable

variable {σ : Type} [RandomSource σ]

namespace Variation

/-- Exchanges the tails behind a random cut. One gene has no inner cut and stays. -/
def crossOnePoint (a b : List Slot) : Draw σ (List Slot × List Slot) := do
  if a.length < 2 then return (a, b)
  let cut := 1 + (← Draw.belowLong (a.length - 1))
  if a.length = b.length then return (a.take cut ++ b.drop cut, b.take cut ++ a.drop cut)
  else throw .outOfRange

/-- Exchanges each gene with probability one half. -/
def crossUniform : List Slot → List Slot → Draw σ (List Slot × List Slot)
  | [], b => return ([], b)
  | x :: a, [] => do
    if ← Draw.chance .half then throw .outOfRange
    let (c, d) ← crossUniform a []
    return (x :: c, d)
  | x :: a, y :: b => do
    let exchange ← Draw.chance .half
    let (c, d) ← crossUniform a b
    return if exchange then (y :: c, x :: d) else (x :: c, y :: d)

def cross (rule : CrossoverRule) (a b : List Slot) : Draw σ (List Slot × List Slot) :=
  match rule with
  | .onePoint => crossOnePoint a b
  | .uniform => crossUniform a b

/-- A probability lies from 0 to 1; what is no number counts as 0. -/
def clampedProbability (p : Double) : Double :=
  if p.isNaN || p < 0 then 0 else if 1 < p then 1 else p

/-- The probability per gene with which at least one of `genes` genes is hit with probability
`target`. -/
def mutationProbability (target : Double) (genes : Nat) : Double :=
  if genes = 0 then 0
  else 1 - (1 - clampedProbability target).pow (1 / .ofNat genes)

/-- Moves a gene to another slot of its domain with probability `p`. -/
def mutateGene (p : Double) (gene : Slot) (domain : List Slot) : Draw σ (Slot × Nat) := do
  if domain.length < 2 then return (gene, 0)
  if ← Draw.chance p then
    match ← Draw.choose (domain.filter (· ≠ gene)) with
    | some slot => return (slot, 1)
    | none => return (gene, 0)
  else return (gene, 0)

/-- Mutates every gene that has a domain; also answers how many genes changed. -/
def mutateGenes (p : Double) : List Slot → List (List Slot) → Draw σ (List Slot × Nat)
  | gene :: genes, domain :: domains => do
    let (gene, changed) ← mutateGene p gene domain
    let (genes, others) ← mutateGenes p genes domains
    return (gene :: genes, changed + others)
  | genes, _ => return (genes, 0)

def mutate (p : Double) (genes : List Slot) (domains : List (List Slot)) :
    Draw σ (List Slot × Nat) :=
  mutateGenes (clampedProbability p) genes domains

end Variation

end Timetable
