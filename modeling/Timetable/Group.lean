import Timetable.Double.Basic
import Timetable.Slot
import Timetable.Exam

/-!
Groups of exams that share a slot, and the placements of groups.
-/

namespace Timetable

/-- A group is named by its smallest exam. -/
abbrev GroupCode := Nat

inductive GroupState where
  /-- Placed by the search. -/
  | scheduled
  /-- Committed earlier; keeps its slot. -/
  | locked (slot : Slot)
  /-- Planned by somebody else, in a slot that may not be known. -/
  | external (slot : Option Slot)
deriving DecidableEq, Repr

namespace GroupState

/-- The slot that a state prescribes. -/
def recorded? : GroupState → Option Slot
  | .scheduled => none
  | .locked slot => some slot
  | .external slot => slot

def isExternal : GroupState → Bool
  | .external _ => true
  | _ => false

/-- Whether a group in this state has to be placed at all. -/
def isPlaceable : GroupState → Bool
  | .external slot => slot.isSome
  | _ => true

end GroupState

/-- Students registered in this group and in another one. -/
structure GroupConflict where
  group : GroupCode
  students : Nat
deriving DecidableEq, Repr

structure ExamGroup where
  code : GroupCode
  exams : List Ancode
  studentCount : Nat
  maxDuration : Nat
  allowedSlots : List Slot
  conflicts : List GroupConflict
  state : GroupState
deriving DecidableEq, Repr

namespace ExamGroup

def isExternal (group : ExamGroup) : Bool := group.state.isExternal

def isPlaceable (group : ExamGroup) : Bool := group.state.isPlaceable

end ExamGroup

structure Placement where
  group : GroupCode
  slot : Slot
deriving DecidableEq, Repr

/-- Two groups that share students and sit too close. -/
structure Clash where
  first : GroupCode
  second : GroupCode
  students : Nat
deriving DecidableEq, Repr

structure Plan where
  placements : List Placement
  penalty : Double
  fitness : Double
  /-- The search run that found the plan, and the generations it took. -/
  run : Nat
  generations : Nat
deriving DecidableEq, Repr

/-- The first placement of a group counts. -/
def Plan.slotOf? (plan : Plan) (group : GroupCode) : Option Slot :=
  (plan.placements.find? (·.group = group)).map (·.slot)

end Timetable
