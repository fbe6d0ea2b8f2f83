import Timetable.Proofs.AloneAgain

/-! Rooms that are taken whole in a slot without pins: those of students who sit alone, and reserves. Such a
room has one entry. It was free when it was taken, so no entry named it before, and then it is out of reach. -/

namespace Timetable.Proofs.WholeRooms
open SeatEntries SeatPool SeatingSteps SeatingPhases SlotRounds RoomCapacity SeatReasons SeatMoves RoomsAlone
  PinsAgain AloneAgain Returned

variable {allocator : Allocator} {records : List Accommodation} {blocked : List Block} {slot : Slot}
  {exams : List Exam} {exam : Exam} {threshold : Nat} {place : Place} {before after round : Round}
  {entry other : Seating} {entries kept : List Seating} {student : StudentId} {name : RoomName}

def names (name : RoomName) (entry : Seating) : Bool := entry.room = name

private theorem mem_named : entry ∈ entries.filter (names name) ↔ entry ∈ entries ∧ entry.room = name := by
  simp [names]

/-- An entry that fills a room by itself: a reserve, or a student who sits alone. -/
inductive Whole (records : List Accommodation) (entry : Seating) : Prop where
  | reserve (reserved : entry.reserve = true) (empty : entry.students = [])
  | alone {student : StudentId} (plain : entry.reserve = false) (single : entry.students = [student])
      (needed : reasonFor records student = .noRoomToSitAlone)

/-- The entries of a room: none, those of students with company, or a single one that fills the room. -/
inductive Taken (records : List Accommodation) (round : Round) (place : Place) : Prop where
  | vacant (unnamed : round.seatings.filter (names place.room.name) = [])
  | shared (used : ∃ room ∈ round.pool.used, room.place = place)
      (company : ∀ entry ∈ round.seatings, entry.room = place.room.name → entry.reserve = false ∧
        ∀ student ∈ entry.students, reasonFor records student ≠ .noRoomToSitAlone)
  | whole {entry : Seating} (closed : ¬ Holds round.pool place)
      (only : round.seatings.filter (names place.room.name) = [entry]) (fills : Whole records entry)

/-- Nobody is noted for a free room. -/
theorem Taken.unnamed (taken : Taken records before place) (sound : Sound before.pool)
    (free : place ∈ before.pool.free) : before.seatings.filter (names place.room.name) = [] := by
  cases taken with
  | vacant unnamed => exact unnamed
  | shared used =>
    obtain ⟨room, present, same⟩ := used
    exact absurd (congrArg Place.position same.symm) (sound.not_used free present)
  | whole closed => exact absurd (.inl free) closed

/-- Whoever is noted for a room that can be had is there with others. -/
theorem Taken.company (taken : Taken records before place) (held : Holds before.pool place) :
    ∀ noted ∈ before.seatings, noted.room = place.room.name → noted.reserve = false ∧
      ∀ student ∈ noted.students, reasonFor records student ≠ .noRoomToSitAlone := by
  intro noted member named
  cases taken with
  | vacant unnamed =>
    have chosen := mem_named.mpr ⟨member, named⟩
    rw [unnamed] at chosen
    cases chosen
  | shared _ others => exact others noted member named
  | whole closed => exact absurd held closed

/-- A room keeps what it has while entries are noted for others. -/
theorem Taken.elsewhere (taken : Taken records before place)
    (used : (∃ room ∈ before.pool.used, room.place = place) → ∃ room ∈ after.pool.used, room.place = place)
    (held : Holds after.pool place → Holds before.pool place)
    (same : after.seatings.filter (names place.room.name) = before.seatings.filter (names place.room.name)) :
    Taken records after place := by
  cases taken with
  | vacant unnamed => exact .vacant (same.trans unnamed)
  | shared inUse company =>
    refine .shared (used inUse) fun entry member here => ?_
    have chosen := mem_named.mpr ⟨member, here⟩
    rw [same] at chosen
    exact company entry (mem_named.mp chosen).1 here
  | whole closed only fills => exact .whole (fun still => closed (held still)) (same.trans only) fills

private theorem taken_whole (sound : Sound before.pool) (taken : Taken records before place)
    (free : place ∈ before.pool.free) (pool : after.pool = before.pool.take place)
    (seatings : after.seatings = before.seatings ++ [entry]) (here : entry.room = place.room.name)
    (fills : Whole records entry) : Taken records after place := by
  refine .whole ?_ ?_ fills
  · rw [pool]
    exact not_holds_take sound free
  · rw [seatings, List.filter_append, taken.unnamed sound free, List.nil_append, List.filter_singleton, names, here,
      decide_eq_true rfl, cond_true]

theorem Move.taken (move : Move records threshold exam before entry after) (genuine : Genuine before.pool)
    (known : place ∈ before.pool.places) (taken : Taken records before place) : Taken records after place := by
  obtain ⟨sound, named, real⟩ := genuine
  have seatings := move.step.seatings_eq move.plain
  by_cases here : entry.room = place.room.name
  · cases move.turn with
    | @shared other held room used _ company =>
      obtain rfl := Lookups.eq_of_key named (held.known sound) known (room.symm.trans here)
      have company_before := taken.company held
      refine .shared used fun noted member named => ?_
      rcases mem_merge move.plain (seatings ▸ member) with old | ⟨same, students⟩
      · exact company_before noted old named
      · refine ⟨(congrArg Seating.reserve same).trans move.plain, fun student sits => ?_⟩
        rcases students student sits with new | ⟨first, old, alike, sat⟩
        · exact company student new
        · exact (company_before first old ((room_of_key alike).trans here)).2 student sat
    | @alone other student free _ room pool single needed =>
      obtain rfl := Lookups.eq_of_key named (sound.free_known _ free) known (room.symm.trans here)
      have fresh : key entry ∉ before.seatings.map key := by
        intro present
        obtain ⟨noted, member, same⟩ := List.mem_map.mp present
        have chosen := mem_named.mpr ⟨member, (room_of_key same).trans here⟩
        rw [taken.unnamed sound free] at chosen
        cases chosen
      exact taken_whole sound taken free pool (seatings.trans (merge_fresh move.plain fresh)) here
        (.alone move.plain single needed)
    | short room => exact absurd (here.symm.trans room) (real place known)
  · refine taken.elsewhere (used_kept move.step) (move.step.holds sound) ?_
    rw [seatings]
    exact merge_other (fun _ => rfl) move.plain (decide_eq_false here) _

private theorem moves_taken (moves : Moves records threshold exams before entries after) (genuine : Genuine before.pool)
    (taken : ∀ place ∈ before.pool.places, Taken records before place) :
    ∀ place ∈ after.pool.places, Taken records after place := by
  induction moves with
  | done => exact taken
  | next _ move _ ih =>
    refine ih (genuine.step move.step) fun place known => ?_
    rw [move.step.places_eq] at known
    exact Move.taken move genuine known (taken place known)

private theorem keeps_taken (keeps : Keeps before entries after) (genuine : Genuine before.pool)
    (taken : ∀ place ∈ before.pool.places, Taken records before place) :
    ∀ place ∈ after.pool.places, Taken records after place := by
  induction keeps with
  | done => exact taken
  | @next before after free_place entry entries free slot room reserved empty _ ih =>
    refine ih ⟨genuine.sound.take free_place, genuine.named, genuine.real⟩ fun place known => ?_
    by_cases here : free_place = place
    · subst here
      exact taken_whole genuine.sound (taken free_place known) free rfl rfl room (.reserve reserved empty)
    · have apart : entry.room ≠ place.room.name := fun same => here
        (Lookups.eq_of_key genuine.named (genuine.sound.free_known _ free) known (room.symm.trans same))
      refine (taken place known).elsewhere id Holds.of_take ?_
      rw [List.filter_append, List.filter_singleton, names, decide_eq_false apart, cond_false, List.append_nil]

/-- What asks for a room of its own: a reserve, and an entry with a student who sits alone. -/
def AsksForRoom (records : List Accommodation) (entry : Seating) : Prop :=
  entry.reserve = true ∨
    entry.room ≠ Room.placeholder ∧ ∃ student ∈ entry.students, reasonFor records student = .noRoomToSitAlone

theorem Taken.single (taken : Taken records round place) (member : entry ∈ round.seatings)
    (here : entry.room = place.room.name) (asks : AsksForRoom records entry) :
    round.seatings.filter (names entry.room) = [entry] ∧ Whole records entry := by
  have listed := mem_named.mpr ⟨member, here⟩
  rw [here]
  cases taken with
  | vacant unnamed =>
    rw [unnamed] at listed
    cases listed
  | shared _ company =>
    obtain ⟨plain, others⟩ := company entry member here
    rcases asks with reserved | ⟨-, student, sits, needed⟩
    · rw [plain] at reserved
      cases reserved
    · exact absurd needed (others student sits)
  | whole _ only fills =>
    rw [only, List.mem_singleton] at listed
    subst listed
    exact ⟨only, fills⟩

private theorem exists_place (moves : Moves records threshold exams before entries after) (sound : Sound before.pool)
    (empty : before.seatings = []) (keeps : Keeps after kept round) (member : entry ∈ round.seatings)
    (asks : AsksForRoom records entry) : ∃ place ∈ round.pool.places, entry.room = place.room.name := by
  have reserving : Run threshold after kept round := keeps.run
  have places : round.pool.places = before.pool.places := reserving.places_eq.trans moves.run.places_eq
  rw [keeps.seatings_eq] at member
  rw [places]
  rcases List.mem_append.mp member with noted | reserved
  · have logged := moves.run.mem_keys.mp (List.mem_map_of_mem noted)
    rw [empty] at logged
    obtain ⟨original, listed, same⟩ := List.mem_map.mp (logged.resolve_left List.not_mem_nil)
    have room := room_of_key same
    have plain : entry.reserve = false :=
      (congrArg Seating.reserve same).symm.trans (moves.logged original listed).1
    have real : entry.room ≠ Room.placeholder := by
      rcases asks with reserved | ⟨real, -⟩
      · rw [plain] at reserved
        cases reserved
      · exact real
    rcases moves.run.housed sound original listed with ⟨place, held, here⟩ | ⟨nowhere, -⟩
    · exact ⟨place, held.known sound, room.symm.trans here⟩
    · exact absurd (room.symm.trans nowhere) real
  · have later := moves.run.sound sound
    obtain ⟨-, -, -, housed⟩ := Run.reserving reserving later fun other noted => (keeps.reserves other noted).1
    obtain ⟨place, held, here⟩ := housed entry reserved
    exact ⟨place, moves.run.places_eq ▸ held.known later, here⟩

private theorem slot_whole (named : (allocator.rooms.map (·.name)).Nodup)
    (real : ∀ room ∈ allocator.rooms, room.name ≠ Room.placeholder)
    (returned : allocator.allocateSlot records [] blocked slot exams = .ok round) (member : entry ∈ round.seatings)
    (asks : AsksForRoom records entry) :
    round.seatings.filter (names entry.room) = [entry] ∧ Whole records entry := by
  obtain ⟨start, started, returned⟩ := bind_ok returned
  obtain ⟨unpinned, none, returned⟩ := bind_ok returned
  obtain rfl := pure_ok none
  have genuine := start_genuine started named real
  obtain ⟨middle, final, seated, timed, first, -, second, -, -, rfl⟩ :=
    phases_moves genuine.sound (start_shared started) (start_sorted started) returned
  have moves := first.append second
  obtain ⟨kept, keeps, -⟩ := keepReserves_keeps allocator.params.reserveMinStudents final
  have empty := (start_empty started).2.1
  have vacant : ∀ place ∈ start.pool.places, Taken records start place := by
    intro place known
    refine .vacant ?_
    rw [empty, List.filter_nil]
  have taken := keeps_taken keeps (genuine.run moves.run) (moves_taken moves genuine vacant)
  obtain ⟨place, known, here⟩ := exists_place moves genuine.sound empty keeps member asks
  exact (taken place known).single member here asks

/-- In a plan that is made without pins, the room of a student who needs it alone has their entry and no
other in its slot, and a room in reserve has its own entry without students and no other. -/
theorem whole_rooms_have_one_entry {rooms : List Room} {config : Config} {agenda : Agenda Exam} {plan : RoomPlan}
    (named : (rooms.map (·.name)).Nodup) (real : ∀ room ∈ rooms, room.name ≠ Room.placeholder)
    (slots : (agenda.map (·.1)).Nodup)
    (returned : (Allocator.ofConfig rooms config).allocate agenda records [] = .ok plan) :
    (∀ entry ∈ plan.seatings, entry.room ≠ Room.placeholder → ∀ student ∈ entry.students,
      NeedsRoomAlone records student →
        plan.seatings.filter (inRoom entry.slot entry.room) = [entry] ∧ entry.students = [student]) ∧
    (∀ entry ∈ plan.seatings, entry.reserve = true →
      plan.seatings.filter (inRoom entry.slot entry.room) = [entry] ∧ entry.students = []) := by
  have single : ∀ entry ∈ plan.seatings, AsksForRoom records entry →
      plan.seatings.filter (inRoom entry.slot entry.room) = [entry] ∧ Whole records entry := by
    intro entry member asks
    obtain ⟨⟨slot, exams⟩, listed, same⟩ := List.mem_map.mp ((plan_slots returned).1 entry member)
    obtain ⟨blocked, round, allocated, seatings, -⟩ := exists_round slots returned listed
    have here : entry ∈ round.seatings := by
      rw [← seatings]
      exact List.mem_filter.mpr ⟨member, decide_eq_true same.symm⟩
    obtain ⟨only, fills⟩ := slot_whole (ofConfig_named named config) (ofConfig_real real config) allocated here asks
    refine ⟨?_, fills⟩
    rw [← only, ← seatings, List.filter_filter]
    apply List.filter_congr
    intro other _
    rw [inRoom, names, ← same, Bool.and_comm]
  constructor
  · intro entry member room student sits needs
    have needed := needs_alone.mpr needs
    obtain ⟨only, fills⟩ := single entry member (.inr ⟨room, student, sits, needed⟩)
    refine ⟨only, ?_⟩
    cases fills with
    | reserve _ empty =>
      rw [empty] at sits
      cases sits
    | alone _ own =>
      rw [own, List.mem_singleton] at sits
      rw [own, sits]
  · intro entry member reserved
    obtain ⟨only, fills⟩ := single entry member (.inl reserved)
    refine ⟨only, ?_⟩
    cases fills with
    | reserve _ empty => exact empty
    | alone plain =>
      rw [reserved] at plain
      cases plain

def threeRooms : List Room :=
  [booth, ⟨"R1", 3, false, false, false, false⟩, ⟨"R2", 1, false, false, false, false⟩]

/-- Student `a` needs a room alone, and `x` has additional time. -/
def fullSlot : Agenda Exam :=
  [(⟨1, 1⟩, [⟨1, "One", "prof", 90, .regular, [⟨"IF", ["a", "b"]⟩], {}⟩,
    ⟨2, "Two", "prof", 90, .regular, [⟨"IF", ["x"]⟩], {}⟩])]

theorem booth_and_reserve_have_one_entry : ∃ plan,
    (Allocator.ofConfig threeRooms { rooms := { reserveMinStudents := 1 } }).allocate fullSlot oneEach [] = .ok plan ∧
      plan.seatings.filter (inRoom ⟨1, 1⟩ "R") = [⟨⟨1, 1⟩, "R", 1, 90, ["a"], true, false⟩] ∧
      plan.seatings.filter (inRoom ⟨1, 1⟩ "R2") = [⟨⟨1, 1⟩, "R2", 1, 90, [], false, true⟩] := by
  obtain ⟨plan, returned, alone, reserved⟩ : ∃ plan,
      (Allocator.ofConfig threeRooms { rooms := { reserveMinStudents := 1 } }).allocate fullSlot oneEach [] = .ok plan ∧
        (⟨⟨1, 1⟩, "R", 1, 90, ["a"], true, false⟩ : Seating) ∈ plan.seatings ∧
        (⟨⟨1, 1⟩, "R2", 1, 90, [], false, true⟩ : Seating) ∈ plan.seatings :=
    ⟨_, rfl, by decide, by decide⟩
  obtain ⟨quiet, empty⟩ := whole_rooms_have_one_entry (by decide) (by decide) (by decide) returned
  exact ⟨plan, returned, (quiet _ alone (by decide) "a" (by decide) ⟨⟨"a", 0, true⟩, rfl, rfl⟩).1,
    (empty _ reserved rfl).1⟩

end Timetable.Proofs.WholeRooms
