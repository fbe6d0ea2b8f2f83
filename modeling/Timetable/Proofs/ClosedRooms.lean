import Timetable.Proofs.Chronology
import Timetable.Proofs.RoomsAgain

/-! Rooms that are closed for a slot. A round only uses rooms that are open in its slot, and what its
long sittings block stays closed in the slot after it, since no later round opens a room again. -/

namespace Timetable.Proofs.ClosedRooms
open Chronology SeatEntries SeatPool SeatingSteps SeatingPhases SlotRounds RoomsAgain Returned

variable {allocator : Allocator} {records : List Accommodation} {pinned : List Seating}
  {blocked : List Block} {slot : Slot} {exams : List Exam} {round start middle : Round}
  {honoured entries : List Seating} {agenda : Agenda Exam} {plan : RoomPlan} {entry : Seating}
  {rooms : List Room} {overrides : Table RoomOverride} {settings : RoomOverride} {place : Place} {block : Block}

/-- A room of the inventory that is neither closed by an override nor blocked in a slot. -/
structure Open (allocator : Allocator) (blocked : List Block) (slot : Slot) (place : Place) : Prop where
  known : place ∈ Place.ofRooms allocator.rooms
  available : (place.position, slot) ∉ allocator.unavailable
  unblocked : (place.position, slot) ∉ blocked

theorem start_holds (started : allocator.start records blocked slot exams = .ok start) :
    Holds start.pool place ↔ Open allocator blocked slot place := by
  rw [start_pool started, Holds, Pool.ofPlaces]
  simp only [List.mem_filter, Bool.and_eq_true, Bool.not_eq_true', List.contains_eq_mem,
    decide_eq_false_iff_not, List.not_mem_nil, false_and, exists_false, or_false]
  exact ⟨fun held => ⟨held.1, held.2.1, held.2.2⟩, fun free => ⟨free.known, free.available, free.unblocked⟩⟩

section
variable (seats : Seats allocator records pinned blocked slot exams round start middle honoured entries)
include seats

private theorem seating_open (member : entry ∈ round.seatings) (real : entry.room ≠ Room.placeholder) :
    ∃ place, Open allocator blocked slot place ∧ place.room.name = entry.room := by
  obtain ⟨logged, noted, same⟩ := seats.exists_logged member
  have room := room_of_key same
  rcases seats.run.housed (start_sound seats.started) logged noted with ⟨place, held, name⟩ | ⟨nowhere, -⟩
  · exact ⟨place, (start_holds seats.started).mp held, name.symm.trans room⟩
  · exact absurd (room.symm.trans nowhere) real

private theorem seating_next (member : entry ∈ round.seatings) (plain : entry.reserve = false)
    (long : entry.accommodated ∧ allocator.params.longDurationThreshold < entry.duration) :
    ∃ next, entry.slot.next = .ok next := by
  obtain ⟨logged, noted, same⟩ := seats.exists_logged member
  have next : (key logged).reserve = false →
      (key logged).accommodated ∧ allocator.params.longDurationThreshold < (key logged).duration →
        ∃ next, (key logged).slot.next = .ok next :=
    seats.run.exists_next logged noted
  rw [same] at next
  exact next plain long

end

/-- An entry blocks nothing in its own slot or an earlier one. -/
theorem adds_later {threshold : Nat} {places : List Place} {position : Nat}
    (adds : Adds threshold places entry (position, slot)) : Precedes entry.slot slot := by
  obtain ⟨-, -, place, -, -, next, found, same⟩ := adds
  obtain ⟨-, rfl⟩ := Prod.mk.inj same
  exact precedes_next found

/-- Every entry of a plan has a room that is open in its slot and that no other entry blocks. -/
theorem plan_open (named : (allocator.rooms.map (·.name)).Nodup) (chronological : Chronological agenda)
    (returned : allocator.allocateFrom records pinned blocked agenda = .ok plan)
    (member : entry ∈ plan.seatings) (real : entry.room ≠ Room.placeholder) :
    ∃ place, Open allocator blocked entry.slot place ∧ place.room.name = entry.room ∧
      ∀ other ∈ plan.seatings, ¬ Adds allocator.params.longDurationThreshold
        (Place.ofRooms allocator.rooms) other (place.position, entry.slot) := by
  induction agenda generalizing blocked plan with
  | nil =>
    obtain rfl := Except.ok.inj returned
    cases member
  | cons item rest ih =>
    obtain ⟨round, first, returned⟩ := bind_ok returned
    obtain ⟨later, following, returned⟩ := bind_ok returned
    obtain rfl := pure_ok returned
    obtain ⟨start, middle, honoured, entries, seats⟩ := exists_seats first
    obtain ⟨ahead, chronological⟩ := chronological_cons.mp chronological
    rcases List.mem_append.mp member with here | there
    · obtain ⟨place, isOpen, name⟩ := seating_open seats here real
      have slot := seats.seating_slots entry here
      rw [← slot] at isOpen ahead
      refine ⟨place, isOpen, name, fun other present adds => ?_⟩
      have earlier := adds_later adds
      rcases List.mem_append.mp present with present | present
      · exact earlier.ne ((seats.seating_slots other present).trans slot.symm)
      · exact earlier.asymm (ahead _ ((plan_slots following).1 other present))
    · obtain ⟨place, isOpen, name, free⟩ := ih chronological following there
      have unblocked := isOpen.unblocked
      rw [mem_blocked seats named, not_or, not_exists] at unblocked
      refine ⟨place, ⟨isOpen.known, isOpen.available, unblocked.1⟩, name, fun other present adds => ?_⟩
      rcases List.mem_append.mp present with present | present
      · exact unblocked.2 other ⟨present, adds⟩
      · exact free other present adds

theorem plan_next (slots : (agenda.map (·.1)).Nodup)
    (returned : allocator.allocateFrom records pinned blocked agenda = .ok plan)
    (member : entry ∈ plan.seatings) (plain : entry.reserve = false)
    (long : entry.accommodated ∧ allocator.params.longDurationThreshold < entry.duration) :
    ∃ next, entry.slot.next = .ok next := by
  obtain ⟨exams, blocked, round, -, allocated, -, inside⟩ := entry_round slots returned member
  obtain ⟨_, _, _, _, seats⟩ := exists_seats allocated
  exact seating_next seats inside plain long

private theorem findIdx_name (named : (rooms.map (·.name)).Nodup) (known : place ∈ Place.ofRooms rooms) :
    rooms.findIdx (·.name = place.room.name) = place.position := by
  have present := mem_places.mp known
  obtain ⟨inside, here⟩ := List.getElem?_eq_some_iff.mp present
  rw [List.findIdx_eq inside, here]
  refine ⟨by simp, fun earlier before => decide_eq_false fun same => ?_⟩
  have place := Lookups.place_of_key named (List.getElem?_eq_getElem (before.trans inside)) present same
  omega

/-- Where names are distinct, an override closes its room in every slot it lists and in no other. -/
theorem mem_closures (named : (rooms.map (·.name)).Nodup) (known : place ∈ Place.ofRooms rooms)
    (found : overrides.find? place.room.name = some settings) :
    (place.position, slot) ∈ Allocator.closures rooms overrides ↔ slot ∈ settings.unavailableSlots := by
  have present := mem_places.mp known
  rw [Allocator.closures, List.mem_flatMap]
  constructor
  · rintro ⟨⟨room, position⟩, listed, closed⟩
    dsimp only at closed
    split at closed
    · split at closed
      · rename_i others others_found
        obtain ⟨other, closed, same⟩ := List.mem_map.mp closed
        obtain ⟨rfl, rfl⟩ := Prod.mk.inj same
        have same := Option.some.inj ((List.mk_mem_zipIdx_iff_getElem?.mp listed).symm.trans present)
        rw [same, found] at others_found
        rwa [Option.some.inj others_found]
      · cases closed
    · cases closed
  · intro closed
    refine ⟨(place.room, place.position), List.mk_mem_zipIdx_iff_getElem?.mpr present, ?_⟩
    simp only [findIdx_name named known, found, if_pos]
    exact List.mem_map_of_mem closed

/-- Every entry that stands for seats names a room of the inventory, in a slot in which no override closes
the room and which does not follow a long accommodated sitting in it. -/
theorem entries_respect_closed_rooms {config : Config} (named : (rooms.map (·.name)).Nodup)
    (chronological : Chronological agenda)
    (returned : (Allocator.ofConfig rooms config).allocate agenda records pinned = .ok plan)
    (member : entry ∈ plan.seatings) (real : entry.room ≠ Room.placeholder) :
    (∃ room ∈ rooms, room.name = entry.room) ∧
      (∀ settings, config.roomOverrides.find? entry.room = some settings →
        entry.slot ∉ settings.unavailableSlots) ∧
      ∀ other ∈ plan.seatings, other.room = entry.room → other.reserve = false → other.accommodated = true →
        config.rooms.longDurationThreshold < other.duration →
          entry.slot ≠ ⟨other.slot.day, other.slot.number + 1⟩ := by
  have distinct := ofConfig_named named config
  obtain ⟨place, isOpen, name, free⟩ := plan_open distinct chronological returned member real
  refine ⟨?_, fun settings found closed => ?_, fun other present room plain accommodated long follows => ?_⟩
  · have listed : place.room ∈ (Allocator.ofConfig rooms config).rooms :=
      List.mem_of_getElem? (mem_places.mp isOpen.known)
    have names := (inventory_names rooms config.roomOverrides).mem_iff.mp (List.mem_map_of_mem listed)
    exact List.mem_map.mp (name ▸ names)
  · rw [← name] at found
    exact isOpen.available ((mem_closures distinct isOpen.known found).mpr closed)
  · obtain ⟨next, found⟩ := plan_next chronological.slots returned present plain ⟨accommodated, long⟩
    obtain rfl := follows.trans (next_iff.mp found).2.symm
    exact free other present
      ⟨plain, ⟨accommodated, long⟩, place, isOpen.known, name.trans room.symm, _, found, rfl⟩

def plainRoom (name : RoomName) (seats : Nat) : Room :=
  { name, seats, lab := false, restrictedSoftware := false, sockets := false, accessible := false }

def examOf (ancode : Ancode) (student : StudentId) : Exam :=
  { ancode, title := "", examiner := "prof", duration := 90, category := .regular,
    registrations := [⟨"IF", [student]⟩], constraints := {} }

def closedLate : Config := { roomOverrides := [("R2", { unavailableSlots := [⟨1, 3⟩] })] }

def oneAfterAnother : Agenda Exam := [(⟨1, 1⟩, [examOf 1 "a"]), (⟨1, 2⟩, [examOf 2 "b"])]

def movedAside : Seating :=
  { slot := ⟨1, 2⟩, room := "R2", ancode := 2, duration := 135, students := ["b"], accommodated := true,
    reserve := false }

theorem second_exam_moves_aside :
    ∃ plan, (Allocator.ofConfig [plainRoom "R1" 1, plainRoom "R2" 2] closedLate).allocate oneAfterAnother
        [⟨"a", 50, false⟩, ⟨"b", 50, false⟩] [] = .ok plan ∧ movedAside ∈ plan.seatings ∧
      (∃ room ∈ [plainRoom "R1" 1, plainRoom "R2" 2], room.name = "R2") ∧
      (∀ settings, closedLate.roomOverrides.find? "R2" = some settings → ⟨1, 2⟩ ∉ settings.unavailableSlots) ∧
      ∀ other ∈ plan.seatings, other.room = "R2" → other.reserve = false → other.accommodated = true →
        100 < other.duration → ⟨1, 2⟩ ≠ (⟨other.slot.day, other.slot.number + 1⟩ : Slot) := by
  have named : ([plainRoom "R1" 1, plainRoom "R2" 2].map (·.name)).Nodup := by decide
  have chronological : Chronological oneAfterAnother := by decide
  obtain ⟨plan, returned, member⟩ : ∃ plan,
      (Allocator.ofConfig [plainRoom "R1" 1, plainRoom "R2" 2] closedLate).allocate oneAfterAnother
        [⟨"a", 50, false⟩, ⟨"b", 50, false⟩] [] = .ok plan ∧ movedAside ∈ plan.seatings :=
    ⟨_, rfl, by decide⟩
  exact ⟨plan, returned, member,
    entries_respect_closed_rooms named chronological returned member (by decide)⟩

end Timetable.Proofs.ClosedRooms
