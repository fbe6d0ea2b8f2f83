import Timetable.Double.Basic

/-!
The shortest decimal that reads back as a given double, and of those the nearest. The reals that
round to a double form an interval; on the grid of all decimals with a given number of digits only
the two neighbours of the double can lie in it.
-/

namespace Timetable

/-- Which of two decimals is taken for a double halfway between them. -/
inductive TieRule where
  | toEven
  | awayFromZero
deriving DecidableEq, Repr

/-- The decimal `coefficient * 10 ^ exponent`. -/
structure Decimal where
  coefficient : Nat
  exponent : Int
deriving DecidableEq, Repr

namespace Decimal

/-- Moves zeros from the end of the coefficient into the exponent. -/
def stripZeros (fuel : Nat) (decimal : Decimal) : Decimal :=
  match fuel with
  | 0 => decimal
  | fuel + 1 =>
    if decimal.coefficient ≠ 0 ∧ decimal.coefficient % 10 = 0 then
      stripZeros fuel ⟨decimal.coefficient / 10, decimal.exponent + 1⟩
    else decimal

end Decimal

namespace Double

/-- The reals that round to a double, in quarters of its last place: the double itself is at
`4 * significand`, its lower neighbour is nearer if the significand is the least of its exponent,
and the ends belong to it if the significand is even. -/
structure Interval where
  low : Nat
  middle : Nat
  high : Nat
  closed : Bool
  /-- The quarter of the last place is `2 ^ scale`. -/
  scale : Int

def interval (x : Double) : Interval :=
  let m := x.significand
  let gap := if x.fractionBits = 0 ∧ 1 < x.biasedExponent then 1 else 2
  ⟨4 * m - gap, 4 * m, 4 * m + 2, m % 2 = 0, x.exponent - 2⟩

namespace Interval

/-- Sizes on a common scale: a quarter of the last place, and a unit of the grid `10 ^ k`. -/
def units (i : Interval) (k : Int) : Nat × Nat :=
  (Nat.pow 2 i.scale.toNat * Nat.pow 10 (-k).toNat, Nat.pow 10 k.toNat * Nat.pow 2 (-i.scale).toNat)

def contains (i : Interval) (k : Int) (d : Nat) : Bool :=
  let (quarter, unit) := i.units k
  if i.closed then i.low * quarter ≤ d * unit && d * unit ≤ i.high * quarter
  else i.low * quarter < d * unit && d * unit < i.high * quarter

/-- The multiple of `10 ^ k` just below the double. -/
def below (i : Interval) (k : Int) : Nat :=
  let (quarter, unit) := i.units k
  i.middle * quarter / unit

/-- Whether `d + 1` is taken rather than `d` for a double between them. -/
def roundsUp (ties : TieRule) (i : Interval) (k : Int) (d : Nat) : Bool :=
  let (quarter, unit) := i.units k
  let twice := 2 * i.middle * quarter
  let half := (2 * d + 1) * unit
  half < twice || half = twice && match ties with
    | .toEven => d % 2 = 1
    | .awayFromZero => true

/-- The neighbour of the double on the grid `10 ^ k` that rounds to it; of two the nearer. -/
def onGrid? (ties : TieRule) (i : Interval) (k : Int) : Option Decimal :=
  let d := i.below k
  match i.contains k d, i.contains k (d + 1) with
  | true, true => some ⟨if i.roundsUp ties k d then d + 1 else d, k⟩
  | true, false => some ⟨d, k⟩
  | false, true => some ⟨d + 1, k⟩
  | false, false => none

/-- The power of ten at or below the double: the leading digit counts these. Every positive double
is above `10 ^ -400`, so its multiple by `10 ^ 400` has a whole part to count digits of. -/
def leadingExponent (i : Interval) : Int :=
  (Nat.toDigits 10 (i.below (-400))).length - 401

end Interval

/-- The shortest decimal for the size of a finite double other than zero. Seventeen digits always
suffice. -/
def shortest (x : Double) (ties : TieRule) : Decimal :=
  let i := x.interval
  let leading := i.leadingExponent
  let found := (List.range 17).findSome? fun (more : Nat) => i.onGrid? ties (leading - more)
  (found.getD ⟨i.below (leading - 16), leading - 16⟩).stripZeros 17

end Double

end Timetable
