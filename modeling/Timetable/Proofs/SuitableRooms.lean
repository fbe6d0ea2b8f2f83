import Timetable.Proofs.AloneAgain
import Timetable.Proofs.StudentDues

/-! Rooms that offer what their entries require. Every room a search gives away has been tested for the exam it is
given to, and entries that are put together share their room and their exam, so only a pin can bring an exam into a
room that does not suit it. -/

namespace Timetable.Proofs.SuitableRooms
open SeatEntries SeatPool SeatingSteps SlotRounds SeatReasons ExhaustedRooms AloneAgain SeatedStudents ClosedRooms
  StudentDues Returned

variable {records : List Accommodation} {rooms : List Room} {config : Config} {pinned : List Seating}
  {agenda : Agenda Exam} {plan : RoomPlan} {exams : List Exam} {exam : Exam} {entry first second : Seating}
  {room : Room} {student : StudentId} {needs : RoomNeeds} {places : List Place} {slot : Slot} {allocator : Allocator}
  {blocked : List Block} {round : Round}

structure Equipped (exam : Exam) (room : Room) : Prop where
  lab : exam.constraints.rooms.lab = true → room.lab = true
  restrictedSoftware : exam.constraints.rooms.restrictedSoftware = true → room.restrictedSoftware = true
  sockets : exam.constraints.rooms.sockets = true → room.sockets = true

def Undemanding (exam : Exam) : Prop :=
  exam.constraints.rooms.lab = false ∧ exam.constraints.rooms.restrictedSoftware = false ∧
    exam.constraints.rooms.sockets = false

/-- An entry in whose room somebody sits who needs a room alone. -/
def Sheltered (records : List Accommodation) (entry : Seating) : Prop :=
  ∃ student ∈ entry.students, NeedsRoomAlone records student

/-- What the room of an entry has to be: equipped for the exam, accessible for whom it has to be, and not special
where nothing asks for it. -/
structure Suits (records : List Accommodation) (exam : Exam) (entry : Seating) (room : Room) : Prop where
  equipped : Equipped exam room
  accessible : Sheltered records entry → room.accessible = true
  ordinary : Undemanding exam → ¬ Sheltered records entry →
    room.lab = false ∧ room.restrictedSoftware = false ∧ room.accessible = false

/-- What a room satisfies: everything required is there, and where nothing is, the room is not special. -/
theorem satisfiedBy_iff : needs.satisfiedBy room = true ↔
    (needs.lab = true → room.lab = true) ∧ (needs.restrictedSoftware = true → room.restrictedSoftware = true) ∧
      (needs.sockets = true → room.sockets = true) ∧ (needs.accessible = true → room.accessible = true) ∧
      (needs.isEmpty = true → room.isSpecial = false) := by
  obtain ⟨lab, restricted, sockets, accessible⟩ := needs
  cases lab <;> cases restricted <;> cases sockets <;> cases accessible <;>
    simp [RoomNeeds.satisfiedBy, RoomNeeds.isEmpty, Room.isSpecial, and_assoc]

private theorem equipped_ofExam (suits : (RoomNeeds.ofExam exam).satisfiedBy room = true) : Equipped exam room := by
  obtain ⟨lab, restricted, sockets, -⟩ := satisfiedBy_iff.mp suits
  exact ⟨lab, restricted, sockets⟩

private theorem equipped_withAccessible (suits : (RoomNeeds.ofExam exam).withAccessible.satisfiedBy room = true) :
    Equipped exam room ∧ room.accessible = true := by
  obtain ⟨lab, restricted, sockets, accessible, -⟩ := satisfiedBy_iff.mp suits
  exact ⟨⟨lab, restricted, sockets⟩, accessible rfl⟩

/-- Where the exam alone has been asked for, an exam without requirements does not get a special room. -/
theorem ordinary_ofExam (undemanding : Undemanding exam) (suits : (RoomNeeds.ofExam exam).satisfiedBy room = true) :
    room.lab = false ∧ room.restrictedSoftware = false ∧ room.accessible = false := by
  obtain ⟨lab, restricted, sockets⟩ := undemanding
  obtain ⟨-, -, -, -, plain⟩ := satisfiedBy_iff.mp suits
  simpa [Room.isSpecial, and_assoc] using plain (by simp [RoomNeeds.isEmpty, RoomNeeds.ofExam, lab, restricted, sockets])

/-- Each student's own needs are met in the room of their entry. -/
theorem suits_of_each (filled : entry.students ≠ [])
    (each : ∀ student ∈ entry.students, (needsFor (reasonFor records student) exam).satisfiedBy room = true) :
    Suits records exam entry room := by
  have sheltered {student : StudentId} (seated : student ∈ entry.students)
      (needed : NeedsRoomAlone records student) : Equipped exam room ∧ room.accessible = true := by
    have suits := each student seated
    rw [needs_alone.mpr needed] at suits
    exact equipped_withAccessible suits
  have unsheltered {student : StudentId} (seated : student ∈ entry.students)
      (unneeded : ¬ NeedsRoomAlone records student) : (RoomNeeds.ofExam exam).satisfiedBy room = true := by
    have suits := each student seated
    rw [← needs_alone] at unneeded
    cases reason : reasonFor records student <;> rw [reason] at suits unneeded
    · exact suits
    · exact suits
    · exact absurd rfl unneeded
  obtain ⟨student, seated⟩ := List.exists_mem_of_ne_nil _ filled
  refine ⟨?_, fun ⟨other, present, needed⟩ => (sheltered present needed).2, fun undemanding none => ?_⟩
  · by_cases needed : NeedsRoomAlone records student
    · exact (sheltered seated needed).1
    · exact equipped_ofExam (unsheltered seated needed)
  · exact ordinary_ofExam undemanding (unsheltered seated fun needed => none ⟨student, seated, needed⟩)

private theorem suits_of_empty (empty : entry.students = []) (suits : (RoomNeeds.ofExam exam).satisfiedBy room = true) :
    Suits records exam entry room := by
  refine ⟨equipped_ofExam suits, fun ⟨student, seated, _⟩ => ?_, fun undemanding _ => ordinary_ofExam undemanding suits⟩
  rw [empty] at seated
  cases seated

/-- A room that suits two entries of an exam suits both put together. -/
theorem Suits.together (one : Suits records exam first room) (other : Suits records exam second room) :
    Suits records exam { first with students := first.students ++ second.students } room where
  equipped := one.equipped
  accessible := by
    rintro ⟨student, seated, needed⟩
    rcases List.mem_append.mp seated with seated | seated
    · exact one.accessible ⟨student, seated, needed⟩
    · exact other.accessible ⟨student, seated, needed⟩
  ordinary undemanding none := one.ordinary undemanding fun ⟨student, seated, needed⟩ =>
    none ⟨student, List.mem_append_left _ seated, needed⟩

def PinnedTo (pinned : List Seating) (entry : Seating) : Prop :=
  ∃ pin ∈ pinned, pin.slot = entry.slot ∧ pin.ancode = entry.ancode ∧ pin.room = entry.room

inductive Suited (records : List Accommodation) (pinned : List Seating) (exams : List Exam) (places : List Place)
    (entry : Seating) : Prop where
  | pinned (asked : PinnedTo pinned entry)
  | away (room : entry.room = Room.placeholder)
  | suits {exam : Exam} {place : Place} (listed : exam ∈ exams) (ancode : exam.ancode = entry.ancode)
      (known : place ∈ places) (room : place.room.name = entry.room) (suits : Suits records exam entry place.room)

theorem Suited.together (distinct : (exams.map (·.ancode)).Nodup) (named : (places.map (·.room.name)).Nodup)
    (same : key first = key second) (one : Suited records pinned exams places first)
    (other : Suited records pinned exams places second) :
    Suited records pinned exams places { first with students := first.students ++ second.students } := by
  cases one with
  | pinned asked => exact .pinned asked
  | away room => exact .away room
  | suits listed ancode known room suits =>
    cases other with
    | pinned asked =>
      have asked : PinnedTo pinned (key second) := asked
      rw [← same] at asked
      exact .pinned asked
    | away nowhere => exact .away ((room_of_key same).trans nowhere)
    | suits present equal there name others =>
      obtain rfl := Lookups.eq_of_key distinct listed present
        (ancode.trans ((ancode_of_key same).trans equal.symm))
      obtain rfl := Lookups.eq_of_key named known there (room.trans ((room_of_key same).trans name.symm))
      exact .suits listed ancode known room (suits.together others)

private theorem due_suited (due : Due records places exam entry) (listed : exam ∈ exams) :
    Suited records pinned exams places entry := by
  cases due.placed with
  | seated known room suits =>
    exact .suits listed due.ancode.symm known room.symm (suits_of_each due.filled suits)
  | away room => exact .away room

private theorem slot_suited (distinct : (exams.map (·.ancode)).Nodup) (named : (allocator.rooms.map (·.name)).Nodup)
    (returned : allocator.allocateSlot records pinned blocked slot exams = .ok round) :
    ∀ entry ∈ round.seatings, Suited records pinned exams (Place.ofRooms allocator.rooms) entry := by
  obtain ⟨start, middle, final, honoured, entries, kept, settles⟩ := exists_settles returned
  have places := start_places settles.started
  have names := start_named settles.started named
  rw [places] at names
  have pins : ∀ entry ∈ honoured, Suited records pinned exams (Place.ofRooms allocator.rooms) entry := by
    intro entry noted
    obtain ⟨-, pin, member, same, -⟩ := settles.honours.pinned entry noted
    have asked : PinnedTo pinned (key pin) := ⟨pin, (List.mem_filter.mp member).1, rfl, rfl, rfl⟩
    rw [← same] at asked
    exact .pinned asked
  have others : ∀ entry ∈ entries, Suited records pinned exams (Place.ofRooms allocator.rooms) entry := by
    intro entry noted
    obtain ⟨exam, due, owed⟩ := settles.serves.each entry noted
    obtain ⟨student, seated⟩ := List.exists_mem_of_ne_nil _ due.filled
    obtain ⟨demand, present, rfl, -⟩ := owed student seated
    have listed : demand.exam ∈ middle.demands.map (·.exam) := List.mem_map_of_mem present
    rw [settles.honours.exams, start_exams settles.started] at listed
    rw [places] at due
    exact due_suited due listed
  have empty : ∀ entry ∈ start.seatings, Suited records pinned exams (Place.ofRooms allocator.rooms) entry := by
    rw [(start_empty settles.started).2.1]
    exact nofun
  rw [settles.seatings, List.forall_mem_append]
  constructor
  · exact (settles.first.append settles.second).seatings_all
      (fun first second same one other => one.together distinct names same other)
      (List.forall_mem_append.mpr ⟨pins, others⟩) empty
  · intro entry reserved
    obtain ⟨exam, listed, reserve⟩ := settles.reserves entry reserved
    obtain ⟨place, known, room, suits⟩ := reserve.placed
    exact .suits listed reserve.ancode.symm (places ▸ known) room.symm (suits_of_empty reserve.empty suits)

/-- Overrides change the seats of a room and nothing that an exam asks for. -/
theorem inventory_resized {overrides : Table RoomOverride} (member : room ∈ Allocator.inventory rooms overrides) :
    ∃ other ∈ rooms, ∃ seats, room = { other with seats } := by
  obtain ⟨other, listed, rfl⟩ := List.mem_map.mp ((Ordering.stableSort_perm _).mem_iff.mp member)
  refine ⟨other, listed, ?_⟩
  split
  · exact ⟨_, rfl⟩
  · exact ⟨other.seats, rfl⟩

/-- Capabilities are honoured outside pins: every entry that stands for a room, reserves included, has one that
offers all its exam requires, is accessible for whom needs a room alone, and is not special where nothing asks for
it, unless the room is pinned for the exam in the slot. -/
theorem capabilities_are_honoured (named : (rooms.map (·.name)).Nodup) (slots : (agenda.map (·.1)).Nodup)
    (distinct : ∀ item ∈ agenda, (item.2.map (·.ancode)).Nodup)
    (returned : (Allocator.ofConfig rooms config).allocate agenda records pinned = .ok plan)
    (member : entry ∈ plan.seatings) (real : entry.room ≠ Room.placeholder)
    (unpinned : ∀ pin ∈ pinned, pin.slot = entry.slot → pin.ancode = entry.ancode → pin.room ≠ entry.room) :
    ∃ exams, (entry.slot, exams) ∈ agenda ∧ ∃ exam ∈ exams, exam.ancode = entry.ancode ∧
      ∃ room ∈ rooms, room.name = entry.room ∧ Suits records exam entry room := by
  obtain ⟨exams, blocked, round, present, allocated, -, inside⟩ := entry_round slots returned member
  cases slot_suited (distinct _ present) (ofConfig_named named config) allocated entry inside with
  | pinned asked =>
    obtain ⟨pin, listed, slot, ancode, room⟩ := asked
    exact absurd room (unpinned pin listed slot ancode)
  | away nowhere => exact absurd nowhere real
  | suits listed ancode known room suits =>
    obtain ⟨other, original, seats, same⟩ := inventory_resized (List.mem_of_getElem? (mem_places.mp known))
    refine ⟨exams, present, _, listed, ancode, other, original, ?_, ?_⟩
    · rw [← room, same]
    · rw [same] at suits
      exact ⟨⟨suits.equipped.lab, suits.equipped.restrictedSoftware, suits.equipped.sockets⟩, suits.accessible,
        suits.ordinary⟩

/-- One exam asks for a laboratory, and of the other one student needs a room alone and the other is pinned to the
laboratory. -/
def labAndShelter : List Room := [{ plainRoom "L" 2 with lab := true }, { plainRoom "A" 1 with accessible := true }]

def labAndPlainExam : Agenda Exam :=
  [(⟨1, 1⟩, [{ examOf 1 "a" with constraints := { rooms := { lab := true } } },
    { examOf 2 "c" with registrations := [⟨"IF", ["c", "d"]⟩] }])]

def pinnedToLab : Seating :=
  { slot := ⟨1, 1⟩, room := "L", ancode := 2, duration := 90, students := ["d"], accommodated := false,
    reserve := false }

def shelteredSeat : Seating :=
  { slot := ⟨1, 1⟩, room := "A", ancode := 2, duration := 90, students := ["c"], accommodated := true,
    reserve := false }

theorem sheltered_student_gets_accessible_room : ∃ plan,
    (Allocator.ofConfig labAndShelter {}).allocate labAndPlainExam [⟨"c", 0, true⟩] [pinnedToLab] = .ok plan ∧
      shelteredSeat ∈ plan.seatings ∧
      ∃ exams, (⟨1, 1⟩, exams) ∈ labAndPlainExam ∧ ∃ exam ∈ exams, exam.ancode = 2 ∧
        ∃ room ∈ labAndShelter, room.name = "A" ∧ Suits [⟨"c", 0, true⟩] exam shelteredSeat room := by
  have named : (labAndShelter.map (·.name)).Nodup := by decide
  have slots : (labAndPlainExam.map (·.1)).Nodup := by decide
  have distinct : ∀ item ∈ labAndPlainExam, (item.2.map (·.ancode)).Nodup := by decide
  obtain ⟨plan, returned, member⟩ : ∃ plan,
      (Allocator.ofConfig labAndShelter {}).allocate labAndPlainExam [⟨"c", 0, true⟩] [pinnedToLab] = .ok plan ∧
        shelteredSeat ∈ plan.seatings :=
    ⟨_, rfl, by decide⟩
  exact ⟨plan, returned, member,
    capabilities_are_honoured named slots distinct returned member (by decide) (by decide)⟩

end Timetable.Proofs.SuitableRooms
