/-!
Stable sorting by insertion, sums, and the extremes of a list. All follow the list, so they evaluate
in proofs as well.
-/

namespace Timetable

variable {α : Type}

/-- Inserts in front of the first element that may come after. -/
def insertSorted (le : α → α → Bool) (x : α) : List α → List α
  | [] => [x]
  | y :: rest => if le x y then x :: y :: rest else y :: insertSorted le x rest

/-- Sorts so that `le` holds from each element to the next; equals keep their order. -/
def stableSort (le : α → α → Bool) (xs : List α) : List α := xs.foldr (insertSorted le) []

/-- The sum of a list. -/
def total (ns : List Nat) : Nat := ns.foldr (· + ·) 0

/-- The numbers of a list, each once and ascending. -/
def ascending (ns : List Nat) : List Nat := stableSort (· ≤ ·) ns.eraseDups

/-- The strings of a list, each once and in the order of their characters. -/
def alphabetical (names : List String) : List String := stableSort (· ≤ ·) names.eraseDups

/-- The greatest element, and of equals the last. -/
def lastMax? (le : α → α → Bool) : List α → Option α
  | [] => none
  | x :: xs => some (xs.foldl (fun best y => if le best y then y else best) x)

/-- The least element, and of equals the first. -/
def firstMin? (le : α → α → Bool) : List α → Option α
  | [] => none
  | x :: xs => some (xs.foldl (fun best y => if le best y then best else y) x)

end Timetable
