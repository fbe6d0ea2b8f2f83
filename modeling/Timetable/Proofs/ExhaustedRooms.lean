import Timetable.Proofs.ClosedRooms
import Timetable.Proofs.PinsAgain

/-! Who finds no seat has seen all rooms taken. No room becomes free again in a slot, and a room that is free
no more has an entry, so every room that would have suited is named by some entry at the end. -/

namespace Timetable.Proofs.ExhaustedRooms
open SeatEntries SeatPool SeatingSteps SeatingPhases SlotRounds RoomsAgain SeatReasons SeatMoves PinsAgain
  ClosedRooms Returned

variable {allocator : Allocator} {records : List Accommodation} {pinned pins : List Seating}
  {blocked : List Block} {slot : Slot} {exams : List Exam} {exam : Exam} {agenda : Agenda Exam} {plan : RoomPlan}
  {threshold : Nat} {pool : Pool} {place : Place} {before after start round : Round} {entry pin : Seating}
  {entries : List Seating} {shortfall : Shortfall} {reason : ShortfallReason}

/-- What students of an exam need of a room who are short of one for a reason. -/
def needsFor (reason : ShortfallReason) (exam : Exam) : RoomNeeds :=
  match reason with
  | .noCompatibleRoom | .noSeatForExtendedTime => .ofExam exam
  | .noRoomToSitAlone => (RoomNeeds.ofExam exam).withAccessible

private theorem denies_of_denied (denied : Denied reason exam pool) : Denies (needsFor reason exam) pool := by
  cases reason with
  | noCompatibleRoom => exact denied
  | noSeatForExtendedTime => exact denied.1
  | noRoomToSitAlone => exact denied

def Founded (exams : List Exam) (round : Round) : Prop :=
  ∀ shortfall ∈ round.shortfalls, ∃ exam ∈ exams, exam.ancode = shortfall.ancode ∧
    Denies (needsFor shortfall.reason exam) round.pool

theorem Founded.narrows (founded : Founded exams before) (narrows : Narrows before.pool after.pool)
    (shortfalls : after.shortfalls = before.shortfalls) : Founded exams after := by
  intro shortfall member
  obtain ⟨exam, known, same, denies⟩ := founded shortfall (shortfalls ▸ member)
  exact ⟨exam, known, same, narrows.denies denies⟩

private theorem Move.founded (move : Move records threshold exam before entry after) (known : exam ∈ exams)
    (founded : Founded exams before) : Founded exams after := by
  have narrows := step_narrows move.step
  cases move.turn with
  | shared _ _ _ _ _ shortfalls => exact founded.narrows narrows shortfalls
  | alone _ _ _ _ _ _ shortfalls => exact founded.narrows narrows shortfalls
  | short _ _ denied _ shortfalls =>
    intro shortfall member
    rw [shortfalls] at member
    rcases List.mem_append.mp member with old | new
    · obtain ⟨other, listed, same, denies⟩ := founded shortfall old
      exact ⟨other, listed, same, narrows.denies denies⟩
    · obtain rfl := List.mem_singleton.mp new
      exact ⟨exam, known, rfl, narrows.denies (denies_of_denied denied)⟩

private theorem moves_founded (moves : Moves records threshold exams before entries after)
    (founded : Founded exams before) : Founded exams after := by
  induction moves with
  | done => exact founded
  | next known move _ ih => exact ih (Move.founded move known founded)

/-- Pins turn nobody away. -/
theorem pin_shortfalls (returned : before.pin threshold pin = .ok after) : after.shortfalls = before.shortfalls := by
  rcases pin_cases returned with ⟨rfl, -⟩ | ⟨demand, index, place, pool, -, -, -, done⟩
  · rfl
  · rcases done with ⟨-, rfl⟩ | ⟨-, returned⟩
    · rfl
    · rw [pinStudents_eq] at returned
      obtain ⟨blocked, -, rfl⟩ := seat_ok returned
      rfl

private theorem pins_shortfalls (returned : pins.foldlM (·.pin threshold ·) before = .ok after) :
    after.shortfalls = before.shortfalls :=
  foldlM_keeps (·.shortfalls = before.shortfalls)
    (fun _ _ _ same first => (pin_shortfalls first).trans same) rfl returned

/-- A room that was free and is free no more has an entry. -/
theorem named_of_taken (run : Run threshold before entries after) (sound : Sound before.pool)
    (free : place ∈ before.pool.free) (taken : place ∉ after.pool.free) :
    ∃ noted ∈ after.seatings, noted.room = place.room.name := by
  by_contra unnamed
  apply taken
  refine Run.free_left run sound free fun entry logged here => unnamed ?_
  obtain ⟨noted, member, same⟩ := List.mem_map.mp (run.mem_keys.mpr (.inr (List.mem_map_of_mem logged)))
  exact ⟨noted, member, (room_of_key same).trans here⟩

private theorem slot_exhausted (returned : allocator.allocateSlot records pinned blocked slot exams = .ok round)
    (member : shortfall ∈ round.shortfalls) :
    ∃ exam ∈ exams, exam.ancode = shortfall.ancode ∧ ∀ place, Open allocator blocked slot place →
      Pool.isCompatible (needsFor shortfall.reason exam) place = true →
        ∃ entry ∈ round.seatings, entry.room = place.room.name := by
  obtain ⟨start, started, returned⟩ := bind_ok returned
  obtain ⟨middle, pins, returned⟩ := bind_ok returned
  have sound := start_sound started
  have here : ∀ pin ∈ pinned.filter (·.slot = slot), pin.slot = start.slot := by
    intro pin member
    rw [(start_empty started).1]
    exact of_decide_eq_true (List.mem_filter.mp member).2
  obtain ⟨honoured, first, honours⟩ := pins_run sound here pins
  have shared := first.preserves (fun round => Shared round.pool) step_shared (start_shared started)
  obtain ⟨_, final, normals, timed, second, -, third, -, -, rfl⟩ :=
    phases_moves (first.sound sound) shared (pins_sorted (start_sorted started) pins) returned
  have moves := second.append third
  rw [honours.exams, start_exams started] at moves
  obtain ⟨kept, keeps, -⟩ := keepReserves_keeps allocator.params.reserveMinStudents final
  have reserving : Run allocator.params.longDurationThreshold final kept _ := keeps.run
  have later := moves.run.sound (first.sound sound)
  have nobody : Founded exams middle := by
    intro shortfall member
    rw [pins_shortfalls pins, (start_empty started).2.2.1] at member
    cases member
  have founded : Founded exams (final.keepReserves allocator.params.reserveMinStudents) :=
    (moves_founded moves nobody).narrows (run_narrows reserving)
      (Run.reserving reserving later fun entry noted => (keeps.reserves entry noted).1).2.1
  obtain ⟨exam, known, same, denies⟩ := founded shortfall member
  refine ⟨exam, known, same, fun place isOpen compatible => ?_⟩
  have free : place ∈ start.pool.free :=
    ((start_holds started).mpr isOpen).resolve_right fun ⟨room, used, _⟩ => by
      rw [start_pool started] at used
      cases used
  refine named_of_taken (first.append (moves.run.append reserving)) sound free fun left => ?_
  rw [denies place left] at compatible
  cases compatible

/-- The slots of a plan share only the blocks, and these come from entries of the plan. -/
theorem plan_exhausted (named : (allocator.rooms.map (·.name)).Nodup)
    (returned : allocator.allocateFrom records pinned blocked agenda = .ok plan)
    (member : shortfall ∈ plan.shortfalls) :
    ∃ exams, (shortfall.slot, exams) ∈ agenda ∧ ∃ exam ∈ exams, exam.ancode = shortfall.ancode ∧
      ∀ place, Open allocator blocked shortfall.slot place →
        (∀ other ∈ plan.seatings, ¬ Adds allocator.params.longDurationThreshold
          (Place.ofRooms allocator.rooms) other (place.position, shortfall.slot)) →
        Pool.isCompatible (needsFor shortfall.reason exam) place = true →
          ∃ entry ∈ plan.seatings, entry.slot = shortfall.slot ∧ entry.room = place.room.name := by
  induction agenda generalizing blocked plan with
  | nil =>
    obtain rfl := Except.ok.inj returned
    cases member
  | cons item rest ih =>
    obtain ⟨round, first, returned⟩ := bind_ok returned
    obtain ⟨later, following, returned⟩ := bind_ok returned
    obtain rfl := pure_ok returned
    obtain ⟨_, _, _, _, seats⟩ := exists_seats first
    rcases List.mem_append.mp member with member | member
    · obtain ⟨exam, known, same, taken⟩ := slot_exhausted first member
      have slot := seats.shortfall_slots shortfall member
      refine ⟨item.2, slot ▸ List.mem_cons_self, exam, known, same, fun place isOpen _ compatible => ?_⟩
      obtain ⟨entry, noted, room⟩ := taken place (slot ▸ isOpen) compatible
      exact ⟨entry, List.mem_append_left _ noted, (seats.seating_slots entry noted).trans slot.symm, room⟩
    · obtain ⟨exams, listed, exam, known, same, taken⟩ := ih following member
      refine ⟨exams, List.mem_cons_of_mem _ listed, exam, known, same, fun place isOpen unblocked compatible => ?_⟩
      have still : Open allocator round.blocked shortfall.slot place := by
        refine ⟨isOpen.known, isOpen.available, ?_⟩
        rw [mem_blocked seats named, not_or, not_exists]
        exact ⟨isOpen.unblocked, fun other both => unblocked other (List.mem_append_left _ both.1) both.2⟩
      obtain ⟨entry, noted, there⟩ := taken place still
        (fun other noted => unblocked other (List.mem_append_right _ noted)) compatible
      exact ⟨entry, List.mem_append_right _ noted, there⟩

/-- A room of the inventory is closed in the slots that the override of its name lists. -/
theorem closed_iff {rooms : List Room} {overrides : Table RoomOverride}
    (named : (rooms.map (·.name)).Nodup) (known : place ∈ Place.ofRooms rooms) :
    (place.position, slot) ∈ Allocator.closures rooms overrides ↔
      ∃ settings, overrides.find? place.room.name = some settings ∧ slot ∈ settings.unavailableSlots := by
  refine ⟨fun closed => ?_, fun ⟨settings, found, lists⟩ => (mem_closures named known found).mpr lists⟩
  cases found : overrides.find? place.room.name with
  | some settings => exact ⟨settings, rfl, (mem_closures named known found).mp closed⟩
  | none =>
    obtain ⟨⟨room, position⟩, listed, closed⟩ := List.mem_flatMap.mp closed
    dsimp only at closed
    split at closed
    · split at closed
      · rename_i settings listed_settings
        obtain ⟨_, -, same⟩ := List.mem_map.mp closed
        obtain rfl := (Prod.mk.inj same).1
        have same := (List.mk_mem_zipIdx_iff_getElem?.mp listed).symm.trans (mem_places.mp known)
        rw [Option.some.inj same, found] at listed_settings
        cases listed_settings
      · cases closed
    · cases closed

/-- An entry blocks a room of the inventory if it is a long accommodated sitting there. -/
theorem adds_at {rooms : List Room} (known : place ∈ Place.ofRooms rooms) :
    Adds threshold (Place.ofRooms rooms) entry (place.position, slot) ↔ entry.reserve = false ∧
      (entry.accommodated ∧ threshold < entry.duration) ∧ entry.room = place.room.name ∧
        entry.slot.next = .ok slot := by
  refine and_congr_right fun _ => and_congr_right fun _ => ⟨?_, ?_⟩
  · rintro ⟨other, listed, name, next, found, same⟩
    obtain ⟨position, rfl⟩ := Prod.mk.inj same
    have here := mem_places.mp listed
    rw [← position, mem_places.mp known] at here
    exact ⟨Option.some.inj here ▸ name.symm, found⟩
  · rintro ⟨name, found⟩
    exact ⟨place, known, name.symm, slot, found, rfl⟩

/-- A shortfall means that no room is left: every room with seats that offers what the students who are short
need has an entry in the slot, unless an override closes it there or a long accommodated sitting in the slot
before does. -/
theorem shortfalls_leave_no_room {rooms : List Room} {config : Config} (named : (rooms.map (·.name)).Nodup)
    (returned : (Allocator.ofConfig rooms config).allocate agenda records pinned = .ok plan)
    (member : shortfall ∈ plan.shortfalls) :
    ∃ exams, (shortfall.slot, exams) ∈ agenda ∧ ∃ exam ∈ exams, exam.ancode = shortfall.ancode ∧
      ∀ room ∈ Allocator.inventory rooms config.roomOverrides, 0 < room.seats →
        (needsFor shortfall.reason exam).satisfiedBy room = true →
        (∀ settings, config.roomOverrides.find? room.name = some settings →
          shortfall.slot ∉ settings.unavailableSlots) →
        (∀ other ∈ plan.seatings, other.room = room.name → other.reserve = false → other.accommodated = true →
          config.rooms.longDurationThreshold < other.duration →
            shortfall.slot ≠ ⟨other.slot.day, other.slot.number + 1⟩) →
        ∃ entry ∈ plan.seatings, entry.slot = shortfall.slot ∧ entry.room = room.name := by
  have distinct := ofConfig_named named config
  obtain ⟨exams, listed, exam, known, same, taken⟩ := plan_exhausted distinct returned member
  refine ⟨exams, listed, exam, known, same, fun room present roomy suits available unblocked => ?_⟩
  obtain ⟨position, here⟩ := List.getElem?_of_mem present
  have inventory : (⟨position, room⟩ : Place) ∈ Place.ofRooms (Allocator.ofConfig rooms config).rooms :=
    mem_places.mpr here
  refine taken ⟨position, room⟩ ⟨inventory, ?_, List.not_mem_nil⟩ ?_ ?_
  · intro closed
    obtain ⟨settings, found, lists⟩ := (closed_iff distinct inventory).mp closed
    exact available settings found lists
  · intro other noted adds
    obtain ⟨plain, ⟨accommodated, long⟩, name, found⟩ := (adds_at inventory).mp adds
    exact unblocked other noted name plain accommodated long (Chronology.next_iff.mp found).2
  · rw [Pool.isCompatible, suits, Bool.and_true]
    exact decide_eq_true roomy

def bothOf (ancode : Ancode) : Exam := { examOf ancode "a" with registrations := [⟨"IF", ["a", "b"]⟩] }

def secondStudent : Shortfall := { slot := ⟨1, 3⟩, ancode := 1, students := 1, reason := .noCompatibleRoom }

theorem closed_room_stays_empty :
    ∃ plan, (Allocator.ofConfig [plainRoom "R1" 1, plainRoom "R2" 2] closedLate).allocate
        [(⟨1, 3⟩, [bothOf 1])] [] [] = .ok plan ∧ secondStudent ∈ plan.shortfalls ∧
      ∃ exams, (⟨1, 3⟩, exams) ∈ [((⟨1, 3⟩ : Slot), [bothOf 1])] ∧ ∃ exam ∈ exams, exam.ancode = 1 ∧
        ∀ room ∈ Allocator.inventory [plainRoom "R1" 1, plainRoom "R2" 2] closedLate.roomOverrides, 0 < room.seats →
          (needsFor .noCompatibleRoom exam).satisfiedBy room = true →
          (∀ settings, closedLate.roomOverrides.find? room.name = some settings →
            (⟨1, 3⟩ : Slot) ∉ settings.unavailableSlots) →
          (∀ other ∈ plan.seatings, other.room = room.name → other.reserve = false → other.accommodated = true →
            100 < other.duration → (⟨1, 3⟩ : Slot) ≠ ⟨other.slot.day, other.slot.number + 1⟩) →
          ∃ entry ∈ plan.seatings, entry.slot = ⟨1, 3⟩ ∧ entry.room = room.name := by
  have named : ([plainRoom "R1" 1, plainRoom "R2" 2].map (·.name)).Nodup := by decide
  obtain ⟨plan, returned, member⟩ : ∃ plan,
      (Allocator.ofConfig [plainRoom "R1" 1, plainRoom "R2" 2] closedLate).allocate
        [(⟨1, 3⟩, [bothOf 1])] [] [] = .ok plan ∧ secondStudent ∈ plan.shortfalls :=
    ⟨_, rfl, by decide⟩
  exact ⟨plan, returned, member, shortfalls_leave_no_room named returned member⟩

end Timetable.Proofs.ExhaustedRooms
