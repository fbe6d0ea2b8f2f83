import Timetable.Double.Arithmetic

/-!
Numerals by their parts. A numeral is a natural number, or has a nearest double, only by what is
written: readers ask for one or the other.
-/

namespace Timetable

/-- The sign in front of an exponent, as written. -/
inductive ExponentSign where
  | unsigned
  | plus
  | minus
deriving DecidableEq, Repr

/-- The spelling of a sign. -/
def ExponentSign.chars : ExponentSign → List Char
  | .unsigned => []
  | .plus => ['+']
  | .minus => ['-']

/-- A decimal exponent: its sign and its digits. -/
structure Exponent where
  sign : ExponentSign
  digits : List Char
deriving DecidableEq, Repr

/-- A numeral by its parts, so that `-0`, `1.0` and `1e0` stay apart from `0` and `1`. -/
structure Numeral where
  negative : Bool
  whole : List Char
  fraction : Option (List Char)
  exponent : Option Exponent
deriving DecidableEq, Repr

namespace Numeral

/-- The numeral of a natural number. -/
def ofNat (n : Nat) : Numeral := ⟨false, Nat.toDigits 10 n, none, none⟩

/-- The numeral of an integer. -/
def ofInt (n : Int) : Numeral := ⟨n < 0, Nat.toDigits 10 n.natAbs, none, none⟩

/-- The value of a run of decimal digits. -/
def digitsValue (digits : List Char) : Nat :=
  digits.foldl (fun value digit => 10 * value + (digit.toNat - '0'.toNat)) 0

/-- A natural number is written by digits alone: `-0`, `1.0` and `1e0` are not one. -/
def nat? (numeral : Numeral) : Option Nat :=
  match numeral with
  | ⟨false, whole, none, none⟩ => some (digitsValue whole)
  | _ => none

/-- All digits of a numeral without its point. -/
def significand (numeral : Numeral) : List Char := numeral.whole ++ numeral.fraction.getD []

/-- The power of ten that the significand is multiplied by. -/
def scale (numeral : Numeral) : Int :=
  let written : Int := match numeral.exponent with
    | none => 0
    | some ⟨.minus, digits⟩ => - (digitsValue digits : Int)
    | some ⟨_, digits⟩ => digitsValue digits
  written - (numeral.fraction.getD []).length

/-- The double nearest to a numeral; none if that lies beyond the largest one. The two outer cases
keep the power of ten small: no double has 400 digits before the point or as many zeros after it. -/
def double? (numeral : Numeral) : Option Double :=
  let digits := numeral.significand.dropWhile (· == '0')
  let places : Int := digits.length + numeral.scale
  let size : Double :=
    if digits.isEmpty || places < -400 then 0
    else if 400 < places then .infinity
    else OfScientific.ofScientific (digitsValue digits) (numeral.scale < 0) numeral.scale.natAbs
  if size.isFinite then some (if numeral.negative then -size else size) else none

/-- A run of digits from the front, and what follows it. -/
def spanDigits (chars : List Char) : List Char × List Char := chars.span Char.isDigit

/-- The digits before the point: one zero, or a run that does not start with one. -/
def whole? (chars : List Char) : Option (List Char × List Char) :=
  match spanDigits chars with
  | ([], _) => none
  | (['0'], rest) => some (['0'], rest)
  | ('0' :: _, _) => none
  | (digits, rest) => some (digits, rest)

/-- The digits after a point, if there is one. -/
def fraction? (chars : List Char) : Option (Option (List Char) × List Char) :=
  match chars with
  | '.' :: rest => match spanDigits rest with
    | ([], _) => none
    | (digits, rest) => some (some digits, rest)
  | rest => some (none, rest)

/-- The exponent that ends a numeral, if there is one. -/
def exponent? (chars : List Char) : Option (Option Exponent) :=
  let digits? (sign : ExponentSign) (rest : List Char) : Option (Option Exponent) :=
    match spanDigits rest with
    | ([], _) => none
    | (digits, []) => some (some ⟨sign, digits⟩)
    | _ => none
  match chars with
  | [] => some none
  | letter :: rest =>
    if letter = 'e' ∨ letter = 'E' then
      match rest with
      | '+' :: rest => digits? .plus rest
      | '-' :: rest => digits? .minus rest
      | rest => digits? .unsigned rest
    else none

/-- Reads a whole word as a numeral. -/
def ofChars? (chars : List Char) : Option Numeral := do
  let (negative, rest) := match chars with
    | '-' :: rest => (true, rest)
    | rest => (false, rest)
  let (whole, rest) ← whole? rest
  let (fraction, rest) ← fraction? rest
  return ⟨negative, whole, fraction, ← exponent? rest⟩

/-- The spelling of a numeral. -/
def chars (numeral : Numeral) : List Char :=
  (if numeral.negative then ['-'] else []) ++ numeral.whole
    ++ (match numeral.fraction with
        | none => []
        | some digits => '.' :: digits)
    ++ (match numeral.exponent with
        | none => []
        | some exponent => 'e' :: exponent.sign.chars ++ exponent.digits)

end Numeral

end Timetable
