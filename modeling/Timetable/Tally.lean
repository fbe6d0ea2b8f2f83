import Timetable.Fault

/-!
Counts of pairs of numbers, in ascending order of the pairs. Pairs that have not been counted are left
out.
-/

namespace Timetable

/-- Pairs with their counts, each pair once. -/
abbrev Tally := List ((Nat × Nat) × Nat)

/-- Pairs come in the order of their first numbers, and with one first number in that of the second. -/
def pairBefore (a b : Nat × Nat) : Bool := a.1 < b.1 || (a.1 = b.1 && a.2 < b.2)

namespace Tally

/-- Nothing has been counted for a pair that is left out. -/
def count (tally : Tally) (pair : Nat × Nat) : Nat := (tally.lookup pair).getD 0

/-- Puts a count in the place of the old one, or where the order wants it. -/
def set (pair : Nat × Nat) (n : Nat) : Tally → Tally
  | [] => [(pair, n)]
  | (other, count) :: rest =>
    if pair = other then (pair, n) :: rest
    else if pairBefore pair other then (pair, n) :: (other, count) :: rest
    else (other, count) :: set pair n rest

def add (tally : Tally) (pair : Nat × Nat) (n : Nat) : Except Fault Tally := do
  return tally.set pair (← numberOf (tally.count pair + n))

end Tally

end Timetable
