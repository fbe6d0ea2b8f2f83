import Timetable.Double.Basic
import Timetable.Room

/-!
Invigilators, the duties they are given, and the balance between minutes owed and minutes given.
-/

namespace Timetable

structure Invigilator where
  id : StaffId
  /-- The share of all minutes that this person owes, relative to the others. -/
  factor : Double
  /-- Minutes contributed elsewhere. -/
  otherContributions : Nat
  excludedDays : List Date
  excludedSlots : List Slot
deriving DecidableEq, Repr

/-- A duty that has been given to somebody; without a room it is the reserve of its slot. -/
structure Invigilation where
  slot : Slot
  room : Option RoomName
  invigilator : StaffId
  duration : Nat
  /-- The invigilator watches an exam of their own. -/
  ownExam : Bool
deriving DecidableEq, Repr

def Invigilation.isReserve (invigilation : Invigilation) : Bool := invigilation.room.isNone

/-- Minutes owed and given; the deviation is what was given in excess. -/
structure Balance where
  invigilator : StaffId
  required : Nat
  assigned : Nat
  deviation : Int
deriving DecidableEq, Repr

structure StaffingReport where
  invigilations : List Invigilation
  balances : List Balance
  maxDeviation : Int
  minDeviation : Int
  /-- Duties that nobody could take. -/
  unassigned : List (Slot × Option RoomName)
deriving DecidableEq, Repr

end Timetable
