import Timetable.Double.Arithmetic
import Timetable.Fault
import Timetable.Random.Source

/-!
Draws: numbers, yes or no, elements and orders taken from a source of random words. A number below
a bound is taken from the high half of a product; products whose low half is too large are drawn
again, so that every number is equally likely.
-/

namespace Timetable

/-- A computation that draws from a source and may fault. -/
abbrev Draw (σ α : Type) := StateT σ (Except Fault) α

namespace Draw

variable {σ : Type} [RandomSource σ] {α : Type}

def word32 : Draw σ UInt32 := fun source => .ok (RandomSource.word32 source)

def word64 : Draw σ UInt64 := fun source => .ok (RandomSource.word64 source)

/-- `2 ^ -53`, the distance between neighbouring draws. -/
def grain : Float := Float.ofBits 0x3ca0000000000000

/-- `2 ^ 64`, the number of words. -/
def wordCount : Float := Float.ofBits 0x43f0000000000000

/-- A double from 0 to below 1, a multiple of `2 ^ -53`. -/
def unit : Draw σ Double := do
  return .ofFloat (((← word64) >>> 11).toFloat * grain)

/-- Yes with probability `p`. Nothing is drawn for certainty. -/
def chance (p : Double) : Draw σ Bool := do
  if p = 1 then return true
  else if 0 ≤ p ∧ p < 1 then
    let word ← word64
    return word < (p.toFloat * wordCount).toUInt64
  else throw .noChance

/-- The draws after which a number below a bound is given up. In the mean at least every second one is
accepted, so only a source that never yields an acceptable word comes to this end. -/
def attempts : Nat := 0x4000000000000000

/-- Draws words below `size` until the low part of a product with `n` lies below a limit. -/
def accepted (size limit : Nat) (word : Draw σ Nat) (n : Nat) : Nat → Draw σ Nat
  | 0 => throw .drawsExhausted
  | left + 1 => do
    let product := (← word) * n
    if product % size < limit then return product / size
    else accepted size limit word n left

/-- A number below `n`. -/
def below (n : Nat) : Draw σ Nat :=
  let word : Draw σ Nat := fun source =>
    let (word, source) := RandomSource.word32 source
    .ok (word.toNat, source)
  if n = 0 then throw .noChance else accepted UInt32.size (n <<< (31 - n.log2)) word n attempts

/-- A number below `n`, from words of double length. -/
def belowLong (n : Nat) : Draw σ Nat :=
  let word : Draw σ Nat := fun source =>
    let (word, source) := RandomSource.word64 source
    .ok (word.toNat, source)
  if n = 0 then throw .noChance
  else accepted UInt64.size (n <<< (63 - n.log2)) word n attempts

/-- An element of a list; nothing is drawn for the empty one. -/
def choose (xs : List α) : Draw σ (Option α) :=
  match xs with
  | [] => return none
  | xs => do return xs[← below xs.length]?

/-- Exchanges each position from `i` down to 1 with one at or before it. -/
def shuffleFrom : Nat → Array α → Draw σ (Array α)
  | 0, xs => return xs
  | i + 1, xs => do
    let j ← below (i + 2)
    shuffleFrom i (xs.swapIfInBounds (i + 1) j)

/-- A list in random order. -/
def shuffle (xs : List α) : Draw σ (List α) := do
  return (← shuffleFrom (xs.length - 1) xs.toArray).toList

end Draw

end Timetable
