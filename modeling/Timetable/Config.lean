import Timetable.Double.Arithmetic
import Timetable.Room
import Timetable.Group

/-!
Settings of the planner, each with a default.
-/

namespace Timetable

inductive SelectionRule where
  | roulette
  | stochasticUniversal
  | rank (pressure : Double)
deriving DecidableEq, Repr

inductive CrossoverRule where
  | onePoint
  | uniform
deriving DecidableEq, Repr

structure SearchParams where
  population : Nat := 100
  runs : Nat := 100
  /-- Generations without improvement after which a run ends. -/
  noImprovement : Nat := 100
  /-- The probability that a plan is mutated at all; it is spread over its genes. -/
  targetMutation : Double := 0.9
  selection : SelectionRule := .rank 1.5
  crossover : CrossoverRule := .uniform
  seed : Nat := 0
  /-- Whether runs may be carried out at the same time; the result is the same. -/
  parallel : Bool := true
deriving DecidableEq, Repr

/-- What one student costs who sits two exams of two groups at a given distance. -/
structure PenaltyWeights where
  sameOrAdjacentSlot : Double := 100.0
  sameDay : Double := 10.0
  adjacentDays : Double := 1
deriving DecidableEq, Repr

structure RoomParams where
  /-- Fewer students than this may join a room that other exams already use. -/
  smallResidual : Nat := 10
  /-- An accommodated sitting longer than this blocks its room for the following slot. -/
  longDurationThreshold : Nat := 100
  /-- Exams of at least this size get a room in reserve; 0 disables reserve rooms. -/
  reserveMinStudents : Nat := 0
deriving DecidableEq, Repr

structure RoomOverride where
  seats : Option Nat := none
  unavailableSlots : List Slot := []
deriving DecidableEq, Repr

structure InvigilationParams where
  /-- Slots with at least so many watched rooms get a reserve; 0 disables reserves. -/
  reserveMinRooms : Nat := 1
deriving DecidableEq, Repr

structure InvigilatorOverride where
  excluded : Bool := false
  excludedDays : List Date := []
  excludedSlots : List Slot := []
deriving DecidableEq, Repr

/-- Entries under names. -/
abbrev Table (α : Type) := List (String × α)

namespace Table

variable {α : Type}

/-- Sets the entry of a name. -/
def insert (table : Table α) (name : String) (value : α) : Table α :=
  table.filter (·.1 ≠ name) ++ [(name, value)]

/-- The last entry of a name counts. -/
def ofList (entries : List (String × α)) : Table α :=
  entries.foldl (fun table entry => table.insert entry.1 entry.2) []

def find? (table : Table α) (name : String) : Option α :=
  ((table.filter (·.1 = name)).getLast?).map (·.2)

end Table

structure Config where
  search : SearchParams := {}
  penalties : PenaltyWeights := {}
  goSlotsExclusive : Bool := false
  rooms : RoomParams := {}
  roomOverrides : Table RoomOverride := []
  invigilation : InvigilationParams := {}
  invigilatorOverrides : Table InvigilatorOverride := []
deriving DecidableEq, Repr

end Timetable
