import Timetable.Fault
import Timetable.Sort

/-!
Slots: a day and a number on that day, both counted from one, in chronological order.
-/

namespace Timetable

structure Slot where
  day : Nat
  number : Nat
deriving DecidableEq, Repr

namespace Slot

/-- The place of genes that have no slot to choose from; no calendar has it. -/
def nowhere : Slot := ⟨0, 0⟩

/-- Earlier days come first, and on one day smaller numbers. -/
def isAtMost (a b : Slot) : Bool := a.day < b.day || (a.day = b.day && a.number ≤ b.number)

/-- The slot directly after this one on the same day. -/
def next (slot : Slot) : Except Fault Slot := do
  return ⟨slot.day, ← numberOf (slot.number + 1)⟩

/-- Two slots of one day that are the same or neighbours: nobody can sit an exam in both. -/
def tooClose (a b : Slot) : Bool :=
  a.day = b.day && a.number ≤ b.number + 1 && b.number ≤ a.number + 1

/-- The two days follow one another. -/
def onAdjacentDays (a b : Slot) : Bool := a.day + 1 = b.day || b.day + 1 = a.day

def text (slot : Slot) : String := s!"({slot.day},{slot.number})"

end Slot

/-- Values filed under slots, each slot once and in chronological order. -/
abbrev Agenda (α : Type) := List (Slot × List α)

namespace Agenda

variable {α β : Type}

/-- The different slots of a list, in chronological order. -/
def slotsOf (slots : List Slot) : List Slot := stableSort Slot.isAtMost slots.eraseDups

/-- Files values under their slots; those of one slot keep their order. -/
def ofEntries (entries : List (Slot × α)) : Agenda α :=
  (slotsOf (entries.map (·.1))).map fun slot =>
    (slot, (entries.filter (·.1 = slot)).map (·.2))

/-- The values of a slot. -/
def under (agenda : Agenda α) (slot : Slot) : List α := (agenda.lookup slot).getD []

def values (agenda : Agenda α) : List α := agenda.flatMap (·.2)

end Agenda

end Timetable
