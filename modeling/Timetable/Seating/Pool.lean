import Timetable.Seating.Needs
import Timetable.Sort

/-!
The rooms of one slot. A room is free, or used with some seats left, or taken whole; it never
becomes free again. Rooms stand in the order of the inventory, the greatest first.
-/

namespace Timetable

/-- A room and its position in the inventory. -/
structure Place where
  position : Nat
  room : Room
deriving DecidableEq, Repr

def Place.ofRooms (rooms : List Room) : List Place :=
  rooms.zipIdx.map fun (room, position) => ⟨position, room⟩

/-- An exam of a duration, as it sits in a room. -/
structure Sitting where
  ancode : Ancode
  duration : Nat
deriving DecidableEq, Repr

/-- A room with students in it, or set aside for some. -/
structure UsedRoom where
  place : Place
  seatsLeft : Nat
  sittings : List Sitting
deriving DecidableEq, Repr

structure Pool where
  places : List Place
  free : List Place
  used : List UsedRoom
deriving DecidableEq, Repr

namespace Pool

/-- All rooms that are available, unused. -/
def ofPlaces (places : List Place) (available : Place → Bool) : Pool :=
  ⟨places, places.filter available, []⟩

def find? (pool : Pool) (place : Place) : Option UsedRoom :=
  pool.used.find? (·.place.position = place.position)

/-- A room that is not in use has no seats left to give. -/
def seatsLeft (pool : Pool) (place : Place) : Nat :=
  match pool.find? place with
  | some used => used.seatsLeft
  | none => 0

/-- Takes a room from the free ones. -/
def take (pool : Pool) (place : Place) : Pool :=
  { pool with free := pool.free.filter (·.position ≠ place.position) }

/-- Takes a room from the free ones with all its seats open. -/
def openRoom (pool : Pool) (place : Place) : Pool :=
  let pool := pool.take place
  { pool with used := pool.used ++ [⟨place, place.room.seats, []⟩] }

/-- Opens the room of a name, unless it is in use already. -/
def openNamed? (pool : Pool) (name : RoomName) : Option (Place × Pool) := do
  let place ← pool.places.find? (·.room.name = name)
  if (pool.find? place).isSome then return (place, pool)
  else if pool.free.any (·.position = place.position) then return (place, pool.openRoom place)
  else none

def isCompatible (needs : RoomNeeds) (place : Place) : Bool :=
  0 < place.room.seats && needs.satisfiedBy place.room

/-- The compatible free room with the most seats. -/
def largestFree? (pool : Pool) (needs : RoomNeeds) : Option Place :=
  pool.free.find? (isCompatible needs)

/-- The compatible free room with the fewest seats. -/
def smallestFree? (pool : Pool) (needs : RoomNeeds) : Option Place :=
  pool.free.reverse.find? (isCompatible needs)

/-- Opens the compatible free room with the most seats. -/
def fresh? (pool : Pool) (needs : RoomNeeds) : Option (Place × Pool) :=
  (pool.largestFree? needs).map fun place => (place, pool.openRoom place)

/-- Opens the compatible free room with the fewest seats. -/
def freshSmallest? (pool : Pool) (needs : RoomNeeds) : Option (Place × Pool) :=
  (pool.smallestFree? needs).map fun place => (place, pool.openRoom place)

/-- Takes the compatible free room with the fewest seats as a whole. -/
def takeSmallest? (pool : Pool) (needs : RoomNeeds) : Option (Place × Pool) :=
  (pool.smallestFree? needs).map fun place => (place, pool.take place)

/-- Whether a used room holds exams of one duration only and has seats for so many more. -/
def isShareable (needs : RoomNeeds) (duration students : Nat) (used : UsedRoom) : Bool :=
  !used.sittings.isEmpty && students ≤ used.seatsLeft
    && used.sittings.all (·.duration = duration)
    && needs.satisfiedBy used.place.room

/-- The tightest room to share. -/
def shareable? (pool : Pool) (needs : RoomNeeds) (duration students : Nat) : Option Place :=
  (firstMin? (fun a b => a.seatsLeft < b.seatsLeft
      || (a.seatsLeft = b.seatsLeft && a.place.position ≤ b.place.position))
    (pool.used.filter (isShareable needs duration students))).map (·.place)

/-- A used room with a free seat; one where the exam sits already is preferred. -/
def withSpaceFor? (pool : Pool) (ancode : Ancode) (needs : RoomNeeds) : Option Place :=
  let roomy := pool.used.filter fun used =>
    0 < used.seatsLeft && needs.satisfiedBy used.place.room
  match roomy.find? (·.sittings.any (·.ancode = ancode)) with
  | some used => some used.place
  | none => (roomy.find? (!·.sittings.isEmpty)).map (·.place)

/-- Changes a used room. -/
def update (pool : Pool) (place : Place) (change : UsedRoom → UsedRoom) : Pool :=
  { pool with used := pool.used.map fun used =>
      if used.place.position = place.position then change used else used }

/-- Gives seats of a used room to an exam. -/
def occupy (pool : Pool) (place : Place) (sitting : Sitting) (students : Nat) : Pool :=
  pool.update place fun used =>
    { used with
      seatsLeft := used.seatsLeft - students
      sittings := if used.sittings.contains sitting then used.sittings
        else used.sittings ++ [sitting] }

/-- Closes a used room for further students. -/
def close (pool : Pool) (place : Place) : Pool :=
  pool.update place fun used => { used with seatsLeft := 0 }

end Pool

end Timetable
