import Timetable.Double.Shortest
import Timetable.Json.Basic

/-!
Two ways to write a double: in messages, always positional and without a bare zero fraction; in
documents, as a numeral with a fraction or, for very small and very large sizes, with an exponent.
They also differ on doubles halfway between two shortest decimals.
-/

namespace Timetable

namespace Decimal

def digits (decimal : Decimal) : List Char := Nat.toDigits 10 decimal.coefficient

/-- The number of digits in front of the point; zero or less below one tenth. -/
def pointPlace (decimal : Decimal) : Int := decimal.digits.length + decimal.exponent

/-- The digits in front of the point and those after it. -/
def positional (decimal : Decimal) : List Char × List Char :=
  let ds := decimal.digits ++ List.replicate decimal.exponent.toNat '0'
  let place := decimal.pointPlace
  if 0 < place then (ds.take place.toNat, ds.drop place.toNat)
  else (['0'], List.replicate (-place).toNat '0' ++ ds)

end Decimal

namespace Double

/-- The digits of a finite double before and after the point. -/
def positional (x : Double) (ties : TieRule) : List Char × List Char :=
  if x.magnitude = 0 then (['0'], []) else (x.shortest ties).positional

/-- A double in a message: the fewest digits that read back, never an exponent, and no point
without digits after it. Halves go away from zero. -/
def messageText (x : Double) : String :=
  if x.isNaN then "NaN"
  else
    let sign := if x.isNegative then ['-'] else []
    if x.isFinite then
      match x.positional .awayFromZero with
      | (whole, []) => String.ofList (sign ++ whole)
      | (whole, fraction) => String.ofList (sign ++ whole ++ '.' :: fraction)
    else String.ofList (sign ++ ['i', 'n', 'f'])

/-- Sizes from `10 ^ -5` to below `10 ^ 16` are written without an exponent in documents. -/
def isPositional (place : Int) : Bool := -5 < place && place ≤ 16

/-- A finite double in a document: at least one digit after the point, or a single digit in front
of the point and an exponent with its sign. Halves go to the even neighbour. -/
def numeral (x : Double) : Numeral :=
  let decimal := x.shortest .toEven
  let place := decimal.pointPlace
  if x.magnitude = 0 || isPositional place then
    let (whole, fraction) := x.positional .toEven
    ⟨x.isNegative, whole, some (if fraction.isEmpty then ['0'] else fraction), none⟩
  else
    let digits := decimal.digits
    let fraction := digits.drop 1
    let sign : ExponentSign := if place - 1 < 0 then .minus else .plus
    ⟨x.isNegative, digits.take 1, if fraction.isEmpty then none else some fraction,
      some ⟨sign, Nat.toDigits 10 (place - 1).natAbs⟩⟩

end Double

/-- A double as a JSON value; only finite ones have a numeral. -/
def Json.ofDouble (x : Double) : Json := if x.isFinite then .number (x.numeral) else .null

end Timetable
