/-!
Steps without an answer. Numbers of documents have 32 bits, products of minutes have 64 and shares
have 64 with a sign; a step that leaves its range faults and does not wrap.
-/

namespace Timetable

inductive Fault where
  | overflow
  /-- A position beyond the end of a list, or two lists of different length. -/
  | outOfRange
  /-- A choice by chance among nothing, or with a chance outside 0 to 1. -/
  | noChance
  /-- No draw was accepted within the attempts allowed. -/
  | drawsExhausted
deriving DecidableEq, Repr

/-- Numbers of documents lie below this. -/
def numberLimit : Nat := UInt32.size

/-- A result that has to be a number of a document. -/
def numberOf (n : Nat) : Except Fault Nat :=
  if n < numberLimit then .ok n else .error .overflow

/-- A sum whose every part has to be a number of a document. -/
def numberSum (ns : List Nat) : Except Fault Nat :=
  ns.foldlM (fun total n => numberOf (total + n)) 0

end Timetable
