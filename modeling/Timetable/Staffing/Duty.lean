import Timetable.Staff

/-!
The duties that a room plan gives rise to: one for every occupied room of a slot, as long as the
longest sitting in it, and one in reserve for slots with enough rooms.
-/

namespace Timetable

/-- A duty without a room is the reserve of its slot. -/
structure Duty where
  slot : Slot
  room : Option RoomName
  duration : Nat
  /-- The exams in the room, ascending. -/
  exams : List Ancode
deriving DecidableEq, Repr

namespace Duty

/-- Rooms come before the reserve, and in the order of their names. -/
def roomIsAtMost : Option RoomName → Option RoomName → Bool
  | some a, some b => a ≤ b
  | some _, none => true
  | none, some _ => false
  | none, none => true

/-- Longer duties come first. -/
def isAtMost (a b : Duty) : Bool :=
  b.duration < a.duration || (a.duration = b.duration && roomIsAtMost a.room b.room)

end Duty

namespace Staffing

def longest (durations : List Nat) : Nat := durations.foldl max 0

/-- The duty of a room in which the given seatings take place. -/
def roomDuty (slot : Slot) (seatings : List Seating) (room : RoomName) : Duty :=
  let inside := seatings.filter (·.room = room)
  ⟨slot, some room, longest (inside.map (·.duration)), ascending (inside.map (·.ancode))⟩

/-- The duties of the rooms of a slot, by their names. -/
def roomDuties (slot : Slot) (seatings : List Seating) : List Duty :=
  (alphabetical (seatings.map (·.room))).map (roomDuty slot seatings)

/-- The reserve of a slot with enough rooms; zero asks for none. -/
def reserveDuties (slot : Slot) (duties : List Duty) (minRooms : Nat) : List Duty :=
  if 0 < minRooms ∧ minRooms ≤ duties.length then
    [⟨slot, none, longest (duties.map (·.duration)), []⟩]
  else []

def slotDuties (minRooms : Nat) (slot : Slot) (seatings : List Seating) : List Duty :=
  let rooms := roomDuties slot seatings
  stableSort Duty.isAtMost (rooms ++ reserveDuties slot rooms minRooms)

/-- The duties of all slots. -/
def duties (seatings : List Seating) (minRooms : Nat) : Agenda Duty :=
  (Agenda.ofEntries ((seatings.filter Seating.isOccupied).map fun seating => (seating.slot, seating))).map
    fun (slot, inside) => (slot, slotDuties minRooms slot inside)

/-- The different rooms that an exam occupies in a slot. -/
def roomsOf (seatings : List Seating) (slot : Slot) (ancode : Ancode) : List RoomName :=
  alphabetical ((seatings.filter fun seating =>
    seating.isOccupied && seating.slot = slot && seating.ancode = ancode).map (·.room))

/-- The rooms of every exam in every slot, by slots and ancodes. -/
def roomsPerExam (seatings : List Seating) : List (Slot × Ancode × List RoomName) :=
  let occupied := seatings.filter Seating.isOccupied
  (Agenda.ofEntries (occupied.map fun seating => (seating.slot, seating.ancode))).flatMap
    fun (slot, ancodes) => (ascending ancodes).map fun ancode =>
      (slot, ancode, roomsOf seatings slot ancode)

end Staffing

end Timetable
