import Timetable.Calendar.Date
import Timetable.Json.Numeral

/-!
Dates and moments as text. Reading admits blanks before every number, every separator and at the
end, a signed year of any length and numbers without leading zeros; writing uses none of these
freedoms, except that a year outside 0 to 9999 takes a sign.
-/

namespace Timetable

/-- The characters that Unicode calls white space. -/
def isBlank (c : Char) : Bool :=
  let n := c.toNat
  (9 ≤ n && n ≤ 13) || n = 0x20 || n = 0x85 || n = 0xA0 || n = 0x1680 || (0x2000 ≤ n && n ≤ 0x200A)
    || n = 0x2028 || n = 0x2029 || n = 0x202F || n = 0x205F || n = 0x3000

namespace DateText

def skipBlanks (chars : List Char) : List Char := chars.dropWhile isBlank

/-- A number of one to `most` digits, and what follows it. -/
def number? (most : Nat) (chars : List Char) : Option (Nat × List Char) :=
  match (chars.take most).takeWhile Char.isDigit with
  | [] => none
  | digits => some (Numeral.digitsValue digits, chars.drop digits.length)

/-- A number of one or two digits after blanks. -/
def pair? (chars : List Char) : Option (Nat × List Char) := number? 2 (skipBlanks chars)

/-- Four digits at most, or any number of them after a sign. -/
def year? (chars : List Char) : Option (Int × List Char) :=
  match skipBlanks chars with
  | '-' :: rest => (number? rest.length rest).map fun (value, rest) => (-(value : Int), rest)
  | '+' :: rest => (number? rest.length rest).map fun (value, rest) => ((value : Int), rest)
  | rest => (number? 4 rest).map fun (value, rest) => ((value : Int), rest)

/-- A separator after blanks. -/
def separator? (expected : Char) (chars : List Char) : Option (List Char) :=
  match skipBlanks chars with
  | c :: rest => if c = expected then some rest else none
  | [] => none

def date? (chars : List Char) : Option (Date × List Char) := do
  let (year, rest) ← year? chars
  let (month, rest) ← pair? (← separator? '-' rest)
  let (day, rest) ← pair? (← separator? '-' rest)
  return (← Date.of? year month day, rest)

/-- Nanoseconds from the digits after a point; digits after the ninth do not count. -/
def nanosecond? (chars : List Char) : Option (Nat × List Char) :=
  match chars with
  | '.' :: rest =>
    match rest.takeWhile Char.isDigit with
    | [] => none
    | digits =>
      let kept := digits.take 9
      some (Numeral.digitsValue kept * Nat.pow 10 (9 - kept.length), rest.drop digits.length)
  | rest => some (0, rest)

def time? (chars : List Char) : Option (TimeOfDay × List Char) := do
  let (hour, rest) ← pair? chars
  let (minute, rest) ← pair? (← separator? ':' rest)
  let (second, rest) ← pair? (← separator? ':' rest)
  let (nanosecond, rest) ← nanosecond? rest
  return (← TimeOfDay.of? hour minute second nanosecond, rest)

/-- A result after which only blanks are left. -/
def whole? {α : Type} (result : Option (α × List Char)) : Option α :=
  result.bind fun (value, rest) => if (skipBlanks rest).isEmpty then some value else none

end DateText

def Date.parse? (text : String) : Option Date := DateText.whole? (DateText.date? text.toList)

def DateTime.parse? (text : String) : Option DateTime :=
  DateText.whole? do
    let (date, rest) ← DateText.date? text.toList
    let (time, rest) ← DateText.time? (← DateText.separator? 'T' rest)
    return (⟨date, time⟩, rest)

namespace DateText

/-- A number with at least so many digits. -/
def padded (width n : Nat) : List Char :=
  let digits := Nat.toDigits 10 n
  List.replicate (width - digits.length) '0' ++ digits

def yearChars (year : Int) : List Char :=
  if 0 ≤ year ∧ year ≤ 9999 then padded 4 year.natAbs
  else (if year < 0 then '-' else '+') :: padded 4 year.natAbs

def dateChars (date : Date) : List Char :=
  yearChars date.year ++ '-' :: padded 2 date.month ++ '-' :: padded 2 date.day

/-- Three, six or nine digits, the fewest that lose nothing, and none for zero. -/
def fractionChars (nanosecond : Nat) : List Char :=
  if nanosecond = 0 then []
  else if nanosecond % 1000000 = 0 then '.' :: padded 3 (nanosecond / 1000000)
  else if nanosecond % 1000 = 0 then '.' :: padded 6 (nanosecond / 1000)
  else '.' :: padded 9 nanosecond

def timeChars (time : TimeOfDay) : List Char :=
  padded 2 time.hour ++ ':' :: padded 2 time.minute ++ ':' :: padded 2 time.second
    ++ fractionChars time.nanosecond

end DateText

def Date.text (date : Date) : String := String.ofList (DateText.dateChars date)

def DateTime.text (moment : DateTime) : String :=
  String.ofList (DateText.dateChars moment.date ++ 'T' :: DateText.timeChars moment.time)

end Timetable
