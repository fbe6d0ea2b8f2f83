/-!
Days of the Gregorian calendar, extended to all years, and moments of a day.
-/

namespace Timetable

structure Date where
  year : Int
  month : Nat
  day : Nat
deriving DecidableEq, Repr

namespace Date

def isLeapYear (year : Int) : Bool := year % 4 = 0 && (year % 100 ≠ 0 || year % 400 = 0)

def daysInMonth (year : Int) (month : Nat) : Nat :=
  if month = 2 then if isLeapYear year then 29 else 28
  else if month = 4 ∨ month = 6 ∨ month = 9 ∨ month = 11 then 30
  else 31

/-- The years that dates are kept for. -/
def isSupportedYear (year : Int) : Bool := -262143 ≤ year && year ≤ 262142

/-- A day that the calendar has. -/
def of? (year : Int) (month day : Nat) : Option Date :=
  if isSupportedYear year ∧ 1 ≤ month ∧ month ≤ 12 ∧ 1 ≤ day ∧ day ≤ daysInMonth year month then
    some ⟨year, month, day⟩
  else none

end Date

/-- A moment of a day. Second 60 is a leap second and differs from the second after it. -/
structure TimeOfDay where
  hour : Nat
  minute : Nat
  second : Nat
  nanosecond : Nat
deriving DecidableEq, Repr

def TimeOfDay.of? (hour minute second nanosecond : Nat) : Option TimeOfDay :=
  if hour < 24 ∧ minute < 60 ∧ second ≤ 60 ∧ nanosecond < 1000000000 then
    some ⟨hour, minute, second, nanosecond⟩
  else none

structure DateTime where
  date : Date
  time : TimeOfDay
deriving DecidableEq, Repr

end Timetable
