import Timetable.Config
import Timetable.Seating.Demand
import Timetable.Seating.Pool

/-!
Seating of all registrants, slot by slot. In a slot the pinned seatings come first, then the normal
students, the exam with the most of them first, then the accommodated ones and at last the reserve
rooms. A long accommodated sitting blocks its room for the next slot of the day. Whoever finds no
seat gets the placeholder and a shortfall; the allocation goes on.
-/

namespace Timetable

/-- A room position that is not to be used in a slot. -/
abbrev Block := Nat × Slot

structure Allocator where
  /-- The greatest first, then by name. -/
  rooms : List Room
  unavailable : List Block
  params : RoomParams

namespace Allocator

/-- The inventory with the configured numbers of seats, in order. -/
def inventory (rooms : List Room) (overrides : Table RoomOverride) : List Room :=
  let sized := rooms.map fun room =>
    match (overrides.find? room.name).bind (·.seats) with
    | some seats => { room with seats }
    | none => room
  stableSort (fun a b => b.seats < a.seats || (a.seats = b.seats && a.name ≤ b.name)) sized

/-- The slots that overrides close for rooms. Of rooms with one name only the first is meant. -/
def closures (rooms : List Room) (overrides : Table RoomOverride) : List Block :=
  rooms.zipIdx.flatMap fun (room, position) =>
    if rooms.findIdx (·.name = room.name) = position then
      match overrides.find? room.name with
      | some settings => settings.unavailableSlots.map (position, ·)
      | none => []
    else []

def ofConfig (rooms : List Room) (config : Config) : Allocator :=
  let rooms := inventory rooms config.roomOverrides
  ⟨rooms, closures rooms config.roomOverrides, config.rooms⟩

end Allocator

/-- The allocation of one slot in progress. -/
structure Round where
  slot : Slot
  demands : List Demand
  pool : Pool
  seatings : List Seating
  shortfalls : List Shortfall
  /-- Rooms blocked by long sittings, of this slot and earlier ones. -/
  blocked : List Block

namespace Round

/-- Adds a seating; students of one sitting in one room stand in one entry. -/
def merge (entry : Seating) : List Seating → List Seating
  | [] => [entry]
  | first :: rest =>
    if first.slot = entry.slot ∧ first.room = entry.room ∧ first.ancode = entry.ancode
        ∧ first.duration = entry.duration ∧ first.accommodated = entry.accommodated
        ∧ first.reserve = false then
      { first with students := first.students ++ entry.students } :: rest
    else first :: merge entry rest

/-- Notes students in a room. An accommodated sitting above the threshold blocks the room for the
next slot. -/
def seat (round : Round) (threshold : Nat) (place : Place) (sitting : Sitting)
    (students : List StudentId) (accommodated : Bool) : Except Fault Round := do
  let blocked ←
    if accommodated ∧ threshold < sitting.duration then
      pure ((place.position, ← round.slot.next) :: round.blocked)
    else pure round.blocked
  return { round with
    blocked
    seatings := merge ⟨round.slot, place.room.name, sitting.ancode, sitting.duration, students,
      accommodated, false⟩ round.seatings }

/-- Notes students without a seat. -/
def fallShort (round : Round) (sitting : Sitting) (students : List StudentId)
    (reason : ShortfallReason) : Round :=
  { round with
    shortfalls := round.shortfalls ++ [⟨round.slot, sitting.ancode, students.length, reason⟩]
    seatings := merge ⟨round.slot, Room.placeholder, sitting.ancode, sitting.duration, students,
      false, false⟩ round.seatings }

/-- Echoes a room kept in reserve and closes it. -/
def pinReserve (round : Round) (place : Place) (pin : Seating) : Round :=
  { round with pool := round.pool.close place, seatings := round.seatings ++ [pin] }

/-- Seats the students of a pin as far as the room goes. A pin without students that is not for
accommodated ones is filled with normal students. -/
def pinStudents (round : Round) (threshold : Nat) (index : Nat) (demand : Demand) (place : Place)
    (pin : Seating) : Except Fault Round := do
  let seats := round.pool.seatsLeft place
  let (students, rest) :=
    if pin.students.isEmpty && !pin.accommodated then
      (demand.firstNormal seats, demand.dropNormal seats)
    else
      let kept := pin.students.take seats
      (kept, demand.without kept)
  let sitting : Sitting := ⟨pin.ancode, pin.duration⟩
  let round := { round with
    demands := round.demands.set index rest
    pool := round.pool.occupy place sitting students.length }
  round.seat threshold place sitting students pin.accommodated

/-- Honours one pinned seating, if its exam is in the slot and its room can be had. -/
def pin (round : Round) (threshold : Nat) (pin : Seating) : Except Fault Round :=
  match round.demands.zipIdx.find? (·.1.exam.ancode = pin.ancode) with
  | none => .ok round
  | some (demand, index) =>
    match round.pool.openNamed? pin.room with
    | none => .ok round
    | some (place, pool) =>
      let round := { round with pool }
      if pin.reserve then .ok (round.pinReserve place pin)
      else round.pinStudents threshold index demand place pin

/-- The most urgent demand with normal students, and its index. -/
def mostUrgent? (demands : List Demand) : Option (Demand × Nat) :=
  lastMax? (fun a b => a.1.isAtMost b.1) (demands.zipIdx.filter (!·.1.normal.isEmpty))

/-- A room for normal students: one to share for a small rest, or else a fresh one. -/
def roomForNormal? (pool : Pool) (smallResidual : Nat) (needs : RoomNeeds) (duration students : Nat) :
    Option (Place × Pool) :=
  let shared := if students < smallResidual then pool.shareable? needs duration students else none
  match shared with
  | some place => some (place, pool)
  | none => pool.fresh? needs

/-- Seats normal students of one demand in one room, or all of them nowhere. -/
def seatNormal (round : Round) (params : RoomParams) (demand : Demand) (index : Nat) :
    Except Fault Round :=
  let sitting : Sitting := ⟨demand.exam.ancode, demand.exam.duration⟩
  let wanted := demand.normal.length
  match roomForNormal? round.pool params.smallResidual (.ofExam demand.exam) sitting.duration wanted with
  | some (place, pool) =>
    let count := min (pool.seatsLeft place) wanted
    let round := { round with
      demands := round.demands.set index (demand.dropNormal count)
      pool := pool.occupy place sitting count }
    round.seat params.longDurationThreshold place sitting (demand.firstNormal count) false
  | none =>
    let round := { round with demands := round.demands.set index (demand.dropNormal wanted) }
    .ok (round.fallShort sitting demand.normal .noCompatibleRoom)

/-- The normal students that are still to be seated. -/
def normalCount (round : Round) : Nat := total (round.demands.map (·.normal.length))

/-- Seats normal students in at most so many steps. -/
def seatNormals (round : Round) (params : RoomParams) : Nat → Except Fault Round
  | 0 => .ok round
  | steps + 1 =>
    match mostUrgent? round.demands with
    | none => .ok round
    | some (demand, index) => do
      (← round.seatNormal params demand index).seatNormals params steps

/-- A seat for a student with additional time: where there is room left, or in a fresh room. -/
def roomForExtended? (pool : Pool) (ancode : Ancode) (needs : RoomNeeds) : Option (Place × Pool) :=
  match pool.withSpaceFor? ancode needs with
  | some place => some (place, pool)
  | none => pool.freshSmallest? needs

def seatExtended (threshold : Nat) (exam : Exam) (round : Round) (entry : TimedStudent) :
    Except Fault Round :=
  let sitting : Sitting := ⟨exam.ancode, entry.duration⟩
  match roomForExtended? round.pool exam.ancode (.ofExam exam) with
  | some (place, pool) =>
    let round := { round with pool := pool.occupy place sitting 1 }
    round.seat threshold place sitting [entry.student] true
  | none => .ok (round.fallShort sitting [entry.student] .noSeatForExtendedTime)

def seatAlone (threshold : Nat) (exam : Exam) (round : Round) (entry : TimedStudent) :
    Except Fault Round :=
  let sitting : Sitting := ⟨exam.ancode, entry.duration⟩
  match round.pool.takeSmallest? (RoomNeeds.ofExam exam).withAccessible with
  | some (place, pool) => { round with pool }.seat threshold place sitting [entry.student] true
  | none => .ok (round.fallShort sitting [entry.student] .noRoomToSitAlone)

/-- Seats the accommodated students of one exam. -/
def seatAccommodated (threshold : Nat) (round : Round) (demand : Demand) : Except Fault Round := do
  let round ← demand.extended.foldlM (seatExtended threshold demand.exam) round
  demand.alone.foldlM (seatAlone threshold demand.exam) round

/-- Keeps a room in reserve for an exam that is large enough, if one is left. -/
def keepReserve (minStudents : Nat) (round : Round) (demand : Demand) : Round :=
  if demand.normalTotal < minStudents then round
  else match round.pool.takeSmallest? (.ofExam demand.exam) with
    | some (place, pool) =>
      { round with
        pool
        seatings := round.seatings ++ [⟨round.slot, place.room.name, demand.exam.ancode,
          demand.exam.duration, [], false, true⟩] }
    | none => round

def keepReserves (round : Round) (minStudents : Nat) : Round :=
  if minStudents = 0 then round else round.demands.foldl (keepReserve minStudents) round

end Round

namespace Allocator

/-- The beginning of a slot. -/
def start (allocator : Allocator) (records : List Accommodation) (blocked : List Block) (slot : Slot)
    (exams : List Exam) : Except Fault Round := do
  let demands ← exams.mapM (Demand.ofExam records)
  let pool := Pool.ofPlaces (Place.ofRooms allocator.rooms) fun place =>
    !allocator.unavailable.contains (place.position, slot) && !blocked.contains (place.position, slot)
  return ⟨slot, demands, pool, [], [], blocked⟩

/-- Allocates one slot. -/
def allocateSlot (allocator : Allocator) (records : List Accommodation) (pinned : List Seating)
    (blocked : List Block) (slot : Slot) (exams : List Exam) : Except Fault Round := do
  let threshold := allocator.params.longDurationThreshold
  let round ← allocator.start records blocked slot exams
  let round ← (pinned.filter (·.slot = slot)).foldlM (·.pin threshold ·) round
  let round ← round.seatNormals allocator.params round.normalCount
  let round ← round.demands.foldlM (Round.seatAccommodated threshold) round
  return round.keepReserves allocator.params.reserveMinStudents

/-- Allocates the slots of an agenda one after the other. -/
def allocateFrom (allocator : Allocator) (records : List Accommodation) (pinned : List Seating)
    (blocked : List Block) : Agenda Exam → Except Fault RoomPlan
  | [] => .ok ⟨[], []⟩
  | (slot, exams) :: rest => do
    let round ← allocator.allocateSlot records pinned blocked slot exams
    let later ← allocator.allocateFrom records pinned round.blocked rest
    return ⟨round.seatings ++ later.seatings, round.shortfalls ++ later.shortfalls⟩

/-- Seats every registrant of every exam. -/
def allocate (allocator : Allocator) (agenda : Agenda Exam) (records : List Accommodation)
    (pinned : List Seating) : Except Fault RoomPlan :=
  allocator.allocateFrom records pinned [] agenda

end Allocator

end Timetable
