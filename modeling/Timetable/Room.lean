import Timetable.Slot
import Timetable.Exam

/-!
Rooms, the students seated in them, and the students that found no seat.
-/

namespace Timetable

abbrev RoomName := String

structure Room where
  name : RoomName
  seats : Nat
  lab : Bool
  restrictedSoftware : Bool
  sockets : Bool
  accessible : Bool
deriving DecidableEq, Repr

namespace Room

/-- Special rooms are kept for exams that require them. -/
def isSpecial (room : Room) : Bool := room.lab || room.restrictedSoftware || room.accessible

/-- The name that stands in a plan where no room fits. -/
def placeholder : RoomName := "No Room"

end Room

/-- Students of one exam in one room and slot. -/
structure Seating where
  slot : Slot
  room : RoomName
  ancode : Ancode
  duration : Nat
  students : List StudentId
  /-- The students sit under an accommodation. -/
  accommodated : Bool
  /-- The room is kept free for the exam. -/
  reserve : Bool
deriving DecidableEq, Repr

namespace Seating

def isPlaceholder (seating : Seating) : Bool := seating.room = Room.placeholder

/-- A room that somebody sits in, and that has to be watched. -/
def isOccupied (seating : Seating) : Bool := !seating.isPlaceholder && !seating.reserve

end Seating

inductive ShortfallReason where
  | noCompatibleRoom
  | noSeatForExtendedTime
  | noRoomToSitAlone
deriving DecidableEq, Repr

def ShortfallReason.text : ShortfallReason → String
  | .noCompatibleRoom => "no compatible room left"
  | .noSeatForExtendedTime => "no seat left for an extended-time student"
  | .noRoomToSitAlone => "no accessible room for a student sitting alone"

/-- Students of an exam that got the placeholder. -/
structure Shortfall where
  slot : Slot
  ancode : Ancode
  students : Nat
  reason : ShortfallReason
deriving DecidableEq, Repr

structure RoomPlan where
  seatings : List Seating
  shortfalls : List Shortfall
deriving DecidableEq, Repr

end Timetable
