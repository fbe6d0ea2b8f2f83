import Timetable.Proofs.RoomsAgain
import Timetable.Proofs.RoomsAlone

/-! Slots that are pinned to all their entries, though some of them stand for no room. After such pins no
room is left that was not left at the end of the slot before, except rooms of students who sit alone. -/

namespace Timetable.Proofs.PinsAgain
open SeatDemands SeatEntries SeatPool SeatingSteps SeatingPhases SlotRounds RoomCapacity SeatedStudents
  SeatingReplay RoomsAgain SeatReasons SeatMoves RoomsAlone Returned

variable {allocator : Allocator} {records : List Accommodation} {blocked others : List Block} {slot : Slot}
  {exams : List Exam} {exam : Exam} {threshold : Nat} {pool : Pool} {place : Place}
  {start before middle after final round : Round} {entry : Seating} {entries kept pins : List Seating}
  {student : StudentId} {demand : Demand}

theorem take_left {other : Place} (sound : Sound pool) (free : place ∈ pool.free) (taken : other ∈ pool.places)
    (apart : other.room.name ≠ place.room.name) : place ∈ (pool.take other).free := by
  refine List.mem_filter.mpr ⟨free, ?_⟩
  simp only [ne_eq, decide_not, Bool.not_eq_eq_eq_not, Bool.not_true, decide_eq_false_iff_not]
  intro same
  exact apart (sound.place_eq taken (sound.free_known _ free) same.symm ▸ rfl)

/-- A free room stays free as long as the entries name others. -/
theorem Step.free_left (step : Step threshold before entry after) (sound : Sound before.pool)
    (free : place ∈ before.pool.free) (elsewhere : entry.room ≠ place.room.name) : place ∈ after.pool.free := by
  have offers {other : Place} {pool : Pool} (offered : Offers before.pool other pool)
      (room : entry.room = other.room.name) : place ∈ pool.free := by
    cases offered with
    | inUse => exact free
    | opened taken => exact take_left sound free (sound.free_known _ taken) (room ▸ elsewhere)
  cases step with
  | seat offered _ _ room =>
    have left := offers offered room
    exact left
  | alone taken _ _ _ room => exact take_left sound free (sound.free_known _ taken) (room ▸ elsewhere)
  | short => exact free
  | echo offered _ room =>
    have left := offers offered room
    exact left
  | keep taken _ room => exact take_left sound free (sound.free_known _ taken) (room ▸ elsewhere)

theorem Run.free_left (run : Run threshold before entries after) (sound : Sound before.pool)
    (free : place ∈ before.pool.free) (elsewhere : ∀ entry ∈ entries, entry.room ≠ place.room.name) :
    place ∈ after.pool.free := by
  induction run with
  | done => exact free
  | next first _ ih =>
    rw [List.forall_mem_cons] at elsewhere
    exact ih (first.sound sound) (Step.free_left first sound free elsewhere.1) elsewhere.2

/-- No room is free that an entry names. -/
theorem Step.not_free (step : Step threshold before entry after) (genuine : Genuine before.pool)
    (known : place ∈ before.pool.places) (here : entry.room = place.room.name) : place ∉ after.pool.free := by
  have taken {other : Place} (listed : other ∈ before.pool.places) (room : entry.room = other.room.name) :
      other = place :=
    Lookups.eq_of_key genuine.named listed known (room.symm.trans here)
  have offers {other : Place} {pool : Pool} (offered : Offers before.pool other pool)
      (room : entry.room = other.room.name) : place ∉ pool.free := by
    obtain rfl := taken (offered.known genuine.sound) room
    obtain ⟨used, present, same⟩ := offered.exists_used
    intro free
    exact (offered.sound genuine.sound).not_used free present (congrArg Place.position same.symm)
  cases step with
  | seat offered _ _ room =>
    have left := offers offered room
    exact left
  | alone free _ _ _ room =>
    obtain rfl := taken (genuine.sound.free_known _ free) room
    simp [Pool.take]
  | short _ room => exact absurd (here.symm.trans room) (genuine.real place known)
  | echo offered _ room =>
    have left := offers offered room
    exact left
  | keep free _ room =>
    obtain rfl := taken (genuine.sound.free_known _ free) room
    simp [Pool.take]

private theorem Run.not_free (run : Run threshold before entries after) (genuine : Genuine before.pool)
    (known : place ∈ before.pool.places) (noted : entry ∈ entries) (here : entry.room = place.room.name) :
    place ∉ after.pool.free := by
  induction run with
  | done => cases noted
  | next first rest ih =>
    rcases List.mem_cons.mp noted with rfl | noted
    · exact fun free => Step.not_free first genuine known here ((run_narrows rest).free place free)
    · exact ih (genuine.step first) (first.places_eq ▸ known) noted

/-- Reserves are put at the end and change nothing else that is reported. -/
theorem Run.reserving (run : Run threshold before entries after) (sound : Sound before.pool)
    (reserved : ∀ entry ∈ entries, entry.reserve = true) :
    after.seatings = before.seatings ++ entries ∧ after.shortfalls = before.shortfalls ∧
      after.blocked = before.blocked ∧
      ∀ entry ∈ entries, ∃ place, Holds before.pool place ∧ entry.room = place.room.name := by
  induction run with
  | done => simp
  | @next before middle after entry entries first rest ih =>
    rw [List.forall_mem_cons] at reserved
    have here : middle.seatings = before.seatings ++ [entry] ∧ middle.shortfalls = before.shortfalls ∧
        middle.blocked = before.blocked ∧ ∃ place, Holds before.pool place ∧ entry.room = place.room.name := by
      cases first with
      | seat _ _ _ _ plain => simp [reserved.1] at plain
      | alone _ _ _ _ _ plain => simp [reserved.1] at plain
      | short _ _ plain => simp [reserved.1] at plain
      | echo offered _ room => exact ⟨rfl, rfl, rfl, _, offered.holds, room⟩
      | keep free _ room => exact ⟨rfl, rfl, rfl, _, .inl free, room⟩
    obtain ⟨seatings, shortfalls, blocks, housed⟩ := ih (first.sound sound) reserved.2
    refine ⟨?_, shortfalls.trans here.2.1, blocks.trans here.2.2.1, ?_⟩
    · rw [seatings, here.1, List.append_assoc, List.singleton_append]
    · refine List.forall_mem_cons.mpr ⟨here.2.2.2, fun other member => ?_⟩
      obtain ⟨place, held, room⟩ := housed other member
      exact ⟨place, first.holds sound held, room⟩

/-- A slot without pins: the moves that seat its students, and the reserves kept after them. -/
structure Settled (allocator : Allocator) (records : List Accommodation) (blocked : List Block) (slot : Slot)
    (exams : List Exam) (start final round : Round) (entries kept : List Seating) : Prop where
  returned : allocator.allocateSlot records [] blocked slot exams = .ok round
  started : allocator.start records blocked slot exams = .ok start
  fresh : Fresh start
  genuine : Genuine start.pool
  distinct : (exams.map (·.ancode)).Nodup
  moves : Moves records allocator.params.longDurationThreshold exams start entries final
  barred : Barred records exams final
  reserving : Run allocator.params.longDurationThreshold final kept round
  reserves : ∀ entry ∈ kept, entry.reserve = true ∧ entry.students = [] ∧ ∃ exam ∈ exams, exam.ancode = entry.ancode

theorem start_genuine (started : allocator.start records blocked slot exams = .ok start)
    (named : (allocator.rooms.map (·.name)).Nodup)
    (real : ∀ room ∈ allocator.rooms, room.name ≠ Room.placeholder) : Genuine start.pool where
  sound := start_sound started
  named := start_named started named
  real place known := by
    rw [start_places started] at known
    refine real place.room ?_
    rw [← ofRooms_rooms allocator.rooms]
    exact List.mem_map_of_mem known

theorem start_sorted (started : allocator.start records blocked slot exams = .ok start) :
    ∀ demand ∈ start.demands, Sorted records demand := by
  obtain ⟨demands, listed, started⟩ := bind_ok started
  obtain rfl := pure_ok started
  intro demand member
  obtain ⟨exam, -, returned⟩ := exists_item listed member
  exact sorted_ofExam returned

theorem start_shared (started : allocator.start records blocked slot exams = .ok start) : Shared start.pool := by
  rw [start_pool started]
  intro room used
  cases used

private theorem start_accounted (started : allocator.start records blocked slot exams = .ok start)
    (genuine : Genuine start.pool) : Accounted records exams start := by
  obtain ⟨-, seatings, shortfalls, -⟩ := start_empty started
  refine ⟨genuine, fun place _ => .empty ?_, fun ancode student noted => ?_, fun shortfall member => ?_⟩
  · rw [seatings, studentsOf_nil]
  · rw [seatings, studentsOf_nil] at noted
    cases noted
  · rw [shortfalls] at member
    cases member

theorem exists_settled (named : (allocator.rooms.map (·.name)).Nodup)
    (real : ∀ room ∈ allocator.rooms, room.name ≠ Room.placeholder) (distinct : (exams.map (·.ancode)).Nodup)
    (returned : allocator.allocateSlot records [] blocked slot exams = .ok round) :
    ∃ start final entries kept, Settled allocator records blocked slot exams start final round entries kept := by
  have whole := returned
  obtain ⟨start, started, returned⟩ := bind_ok returned
  obtain ⟨unpinned, none, returned⟩ := bind_ok returned
  obtain rfl := pure_ok none
  have genuine := start_genuine started named real
  obtain ⟨middle, final, seated, timed, first, normals, second, granted, same, rfl⟩ :=
    phases_moves genuine.sound (start_shared started) (start_sorted started) returned
  have listed : final.demands.map (·.exam) = exams := (exams_of_accommodated same).trans (start_exams started)
  rw [start_exams started] at first second
  obtain ⟨kept, reserving, reserves⟩ := keepReserves_run allocator.params.longDurationThreshold
    allocator.params.reserveMinStudents final
  refine ⟨start, final, seated ++ timed, kept, whole, started, start_fresh started named distinct, genuine,
    distinct, first.append second, ?_, reserving, ?_⟩
  · have empty := start_accounted started genuine
    have nobody : Barred records exams middle := normals_barred first.run (start_empty started).2.1 normals
    exact moves_barred second distinct granted (moves_accounted first distinct empty) nobody
  · intro entry noted
    obtain ⟨reserved, empty, -, demand, present, ancode⟩ := reserves entry noted
    exact ⟨reserved, empty, demand.exam, listed ▸ List.mem_map_of_mem present, ancode⟩

def isReal (entry : Seating) : Bool := entry.room ≠ Room.placeholder

/-- Pins for the placeholder name no room and are skipped. -/
theorem pins_skip (genuine : Genuine before.pool) (here : ∀ pin ∈ pins, pin.slot = before.slot) :
    pins.foldlM (·.pin threshold ·) before = (pins.filter isReal).foldlM (·.pin threshold ·) before := by
  induction pins generalizing before with
  | nil => rfl
  | cons pin pins ih =>
    rw [List.forall_mem_cons] at here
    cases named : isReal pin with
    | true =>
      rw [List.filter_cons_of_pos named, List.foldlM_cons, List.foldlM_cons]
      cases returned : before.pin threshold pin with
      | error => rfl
      | ok after =>
        obtain ⟨entries, run, -⟩ := pin_run genuine.sound here.1 returned
        exact ih (genuine.run run) (run.slot_eq ▸ here.2)
    | false =>
      have nowhere : pin.room = Room.placeholder := by simpa [isReal] using named
      have skipped : before.pin threshold pin = .ok before := by
        have unnamed : before.pool.places.find? (·.room.name = Room.placeholder) = none := by
          rw [List.find?_eq_none]
          intro place known
          simpa using genuine.real place known
        have closed : before.pool.openNamed? pin.room = none := by
          rw [Pool.openNamed?, nowhere, unnamed]
          rfl
        unfold Round.pin
        rw [closed]
        split <;> rfl
      rw [List.filter_cons_of_neg (by simp [named]), List.foldlM_cons, skipped]
      exact ih genuine here.2

/-- Pinned reserves are echoed as long as their rooms can be had. -/
theorem pins_echo (genuine : Genuine before.pool)
    (known : ∀ pin ∈ pins, ∃ exam ∈ before.demands.map (·.exam), exam.ancode = pin.ancode)
    (reserved : ∀ pin ∈ pins, pin.reserve = true ∧ pin.slot = before.slot)
    (housed : ∀ pin ∈ pins, ∃ place, Holds before.pool place ∧ pin.room = place.room.name) :
    ∃ after, pins.foldlM (·.pin threshold ·) before = .ok after ∧ Run threshold before pins after ∧
      after.demands = before.demands := by
  induction pins generalizing before with
  | nil => exact ⟨before, rfl, .done _, rfl⟩
  | cons pin pins ih =>
    rw [List.forall_mem_cons] at known reserved housed
    obtain ⟨demand, index, found⟩ := exists_demand known.1
    obtain ⟨place, held, room⟩ := housed.1
    obtain ⟨pool, opened⟩ := exists_named genuine.named (held.known genuine.sound) held
    obtain ⟨offered, -⟩ := offers_named genuine.sound opened
    have step : Step threshold before pin (Round.pinReserve { before with pool } place pin) :=
      .echo offered reserved.1.2 room reserved.1.1
    have first : before.pin threshold pin = .ok (Round.pinReserve { before with pool } place pin) := by
      rw [Round.pin, found]
      simp only [room, opened, reserved.1.1, if_true]
    obtain ⟨after, returned, run, same⟩ := ih (genuine.step step) known.2
      (step.slot_eq ▸ reserved.2) fun other member => by
        obtain ⟨place, held, room⟩ := housed.2 other member
        exact ⟨place, holds_close.mpr ((offered.holds_iff genuine.sound).mpr held), room⟩
    refine ⟨after, ?_, .next step run, same⟩
    rw [List.foldlM_cons, first]
    exact returned

def Solitary (records : List Accommodation) (round : Round) (place : Place) (student : StudentId) : Prop :=
  studentsOf (seatedIn place.room.name) round.seatings = [student] ∧
    reasonFor records student = .noRoomToSitAlone

/-- The rooms with seats left in a pool were left at the end of a round, or somebody had them alone. -/
structure Left (records : List Accommodation) (final : Round) (pool : Pool) : Prop where
  free : ∀ place ∈ pool.free, place ∈ final.pool.free
  used : ∀ room ∈ pool.used, 0 < room.seatsLeft →
    room.place ∈ final.pool.free ∧ 0 < room.place.room.seats ∨
      (∃ other ∈ final.pool.used, other.place = room.place ∧ 0 < other.seatsLeft) ∨
        1 < room.place.room.seats ∧ ∃ student, Solitary records final room.place student

namespace Settled

variable (settled : Settled allocator records blocked slot exams start final round entries kept)
include settled

theorem accounted : Accounted records exams final :=
  moves_accounted settled.moves settled.distinct (start_accounted settled.started settled.genuine)

theorem leaves : Leaves (seated final) final.pool := by
  refine Run.leaves settled.moves.run (fun entry noted => (settled.moves.logged entry noted).1)
    settled.genuine.sound ?_
  intro room used
  rw [settled.fresh.unused] at used
  cases used

theorem round_eq : round.seatings = final.seatings ++ kept ∧ round.shortfalls = final.shortfalls ∧
    round.blocked = final.blocked ∧ ∀ entry ∈ kept, ∃ place, Holds final.pool place ∧ entry.room = place.room.name :=
  Run.reserving settled.reserving (settled.accounted.genuine.sound) fun entry noted =>
    (settled.reserves entry noted).1

/-- The entries that stand for rooms can be pinned again. -/
theorem replayable :
    Replayable allocator.params.longDurationThreshold start (final.seatings.filter isReal) := by
  refine run_replayable settled.fresh settled.moves.run ?_ ?_ ?_
  · intro entry noted
    obtain ⟨plain, filled, -⟩ := settled.moves.logged entry noted
    exact ⟨plain, filled⟩
  · intro entry noted
    rw [start_exams settled.started]
    exact (settled.moves.logged entry noted).2.2
  · intro entry _ real nowhere
    simp [isReal, nowhere] at real

theorem mem_keys {other : Seating} : other ∈ final.seatings.map key ↔ other ∈ entries.map key := by
  rw [settled.moves.run.mem_keys, settled.fresh.seatings]
  simp

theorem exists_logged (member : entry ∈ final.seatings) : ∃ logged ∈ entries, key logged = key entry :=
  List.mem_map.mp (settled.mem_keys.mp (List.mem_map_of_mem member))

theorem exists_merged (noted : entry ∈ entries) : ∃ merged ∈ final.seatings, key merged = key entry :=
  List.mem_map.mp (settled.mem_keys.mpr (List.mem_map_of_mem noted))

/-- Whoever waits at the beginning and is not noted for a room is noted for the placeholder. -/
theorem unplaced_student {ancode : Ancode} (waiting : student ∈ remaining ancode start.demands)
    (unnamed : student ∉ studentsOf (ofExam ancode) (final.seatings.filter isReal)) :
    student ∈ studentsOf (unplaced ancode) final.seatings := by
  obtain ⟨other, middle, honoured, logged, seats⟩ := exists_seats settled.returned
  obtain rfl := Except.ok.inj (seats.started.symm.trans settled.started)
  obtain ⟨entry, noted, same, seated⟩ := mem_studentsOf.mp (seatings_all seats ancode student waiting)
  rw [settled.round_eq.1] at noted
  rcases List.mem_append.mp noted with noted | reserved
  · refine mem_studentsOf.mpr ⟨entry, noted, ?_, seated⟩
    by_contra placed
    have real : isReal entry = true := by
      simpa [unplaced, Seating.isPlaceholder, same, isReal] using placed
    exact unnamed (mem_studentsOf.mpr ⟨entry, List.mem_filter.mpr ⟨noted, real⟩, same, seated⟩)
  · rw [(settled.reserves entry reserved).2.1] at seated
    cases seated

end Settled

theorem sorted_drawn (demand : Demand) (pin : Seating) (seats : Nat) (sorted : Sorted records demand) :
    Sorted records (drawn demand pin seats).2 := by
  unfold drawn
  split
  · exact ⟨fun student left => sorted.normal student (List.mem_of_mem_drop left), sorted.extended, sorted.alone⟩
  · exact ⟨fun student left => sorted.normal student (List.mem_filter.mp left).1,
      fun timed left => sorted.extended timed (List.mem_filter.mp left).1,
      fun timed left => sorted.alone timed (List.mem_filter.mp left).1⟩

theorem pins_sorted (sorted : ∀ demand ∈ before.demands, Sorted records demand)
    (returned : pins.foldlM (·.pin threshold ·) before = .ok after) :
    ∀ demand ∈ after.demands, Sorted records demand :=
  pins_demands sorted_drawn returned sorted

structure Renewed (records : List Accommodation) (threshold : Nat) (exams : List Exam) (start final : Round)
    (kept : List Seating) (middle : Round) : Prop where
  run : Run threshold start (final.seatings.filter isReal ++ kept) middle
  exams : middle.demands.map (·.exam) = exams
  sorted : ∀ demand ∈ middle.demands, Sorted records demand
  waiting : ∀ ancode, ∀ student ∈ remaining ancode middle.demands,
    student ∈ studentsOf (unplaced ancode) final.seatings

namespace Settled

variable (settled : Settled allocator records blocked slot exams start final round entries kept)
include settled

theorem pins_again {again : Round} (begun : allocator.start records others slot exams = .ok again)
    (same : again = { start with blocked := others }) :
    ∃ middle, round.seatings.foldlM (·.pin allocator.params.longDurationThreshold ·) again = .ok middle ∧
      Renewed records allocator.params.longDurationThreshold exams again final kept middle := by
  obtain ⟨seatings, -, -, housed⟩ := settled.round_eq
  have fresh : Fresh again := same ▸ settled.fresh.unblocked others
  have replayable : Replayable allocator.params.longDurationThreshold again (final.seatings.filter isReal) :=
    same ▸ settled.replayable.unblocked others
  have genuine : Genuine again.pool := same ▸ settled.genuine
  have here : ∀ pin ∈ final.seatings ++ kept, pin.slot = again.slot := by
    intro pin member
    rw [← seatings] at member
    obtain ⟨_, _, _, _, seats⟩ := exists_seats settled.returned
    exact (seats.seating_slots pin member).trans (start_empty begun).1.symm
  rw [List.forall_mem_append] at here
  obtain ⟨replayed, first, replays⟩ := pins_replay fresh (replays_nothing fresh) replayable
  rw [List.nil_append] at replays
  have listed : replayed.demands.map (·.exam) = exams := replays.exams.trans (start_exams begun)
  have available : ∀ pin ∈ kept, ∃ place, Holds replayed.pool place ∧ pin.room = place.room.name := by
    intro pin member
    obtain ⟨place, held, room⟩ := housed pin member
    have begun : Holds again.pool place := same ▸ settled.moves.run.holds settled.genuine.sound held
    exact ⟨place, (replays.held place).mpr begun, room⟩
  obtain ⟨middle, echoed, run, unchanged⟩ := pins_echo (genuine.run replays.run)
    (fun pin member => listed.symm ▸ (settled.reserves pin member).2.2)
    (fun pin member => ⟨(settled.reserves pin member).1, (here.2 pin member).trans replays.run.slot_eq.symm⟩)
    available
  have pinned : round.seatings.foldlM (·.pin allocator.params.longDurationThreshold ·) again = .ok middle := by
    rw [seatings, List.foldlM_append, pins_skip genuine here.1, first]
    exact echoed
  refine ⟨middle, pinned, replays.run.append run, unchanged ▸ listed, ?_, ?_⟩
  · exact pins_sorted (start_sorted begun) pinned
  · intro ancode student waiting
    rw [unchanged] at waiting
    obtain ⟨before, unnamed⟩ := replays.waiting ancode student waiting
    rw [same] at before
    exact settled.unplaced_student before unnamed

private theorem names_taken (free : place ∈ start.pool.free) (taken : place ∉ final.pool.free) :
    ∃ entry ∈ final.seatings.filter isReal, entry.room = place.room.name := by
  by_contra unnamed
  refine taken (Run.free_left settled.moves.run settled.genuine.sound free fun entry noted here => unnamed ?_)
  obtain ⟨listed, member, same⟩ := settled.exists_merged noted
  have room : listed.room = place.room.name := (room_of_key same).trans here
  have real := settled.genuine.real place (settled.genuine.sound.free_known _ free)
  exact ⟨listed, List.mem_filter.mpr ⟨member, by simpa [isReal, room] using real⟩, room⟩

section
variable {again middle : Round} (begun : allocator.start records others slot exams = .ok again)
  (same : again = { start with blocked := others })
  (renewed : Renewed records allocator.params.longDurationThreshold exams again final kept middle)
include begun renewed

/-- The pins bring the students of a room back, reserves or not. -/
theorem students_again {kind : Seating → Bool} (blind : ∀ entry, kind (key entry) = kind entry)
    (chosen : ∀ entry, entry.reserve = false → (kind entry && isReal entry) = seatedIn place.room.name entry) :
    (studentsOf kind middle.seatings).Perm (studentsOf (seatedIn place.room.name) final.seatings) := by
  have noted := renewed.run.students blind
  have reserves : studentsOf kind kept = [] :=
    studentsOf_none fun entry member _ => (settled.reserves entry member).2.1
  have sittings : studentsOf kind (final.seatings.filter isReal)
      = studentsOf (seatedIn place.room.name) final.seatings := by
    rw [studentsOf, studentsOf, List.filter_filter]
    congr 1
    apply List.filter_congr
    intro entry member
    obtain ⟨logged, listed, equal⟩ := settled.exists_logged member
    exact chosen entry ((congrArg Seating.reserve equal).symm.trans (settled.moves.logged logged listed).1)
  rwa [(start_empty begun).2.1, studentsOf_nil, List.nil_append, studentsOf_append, reserves, List.append_nil,
    sittings] at noted

include same

theorem left_again : Left records final middle.pool := by
  have genuine : Genuine again.pool := same ▸ settled.genuine
  have fresh : Fresh again := same ▸ settled.fresh.unblocked others
  have begins {place : Place} (free : place ∈ again.pool.free) : place ∈ start.pool.free := by
    rwa [same] at free
  have fits := Run.fits renewed.run genuine.sound genuine.named (fresh_fits fresh)
  constructor
  · intro place free
    by_contra taken
    have before := (run_narrows renewed.run).free place free
    obtain ⟨entry, noted, here⟩ := settled.names_taken (begins before) taken
    exact Run.not_free renewed.run genuine (genuine.sound.free_known _ before) (List.mem_append_left _ noted) here free
  · intro room used left
    obtain ⟨held, before⟩ : Holds again.pool room.place ∧ room.place ∈ again.pool.free := by
      have held := renewed.run.holds genuine.sound (.inr ⟨room, used, rfl⟩)
      refine ⟨held, held.resolve_right fun ⟨other, present, _⟩ => ?_⟩
      rw [fresh.unused] at present
      cases present
    have real := genuine.real room.place (held.known genuine.sound)
    have within := fits.left room used
    rw [charged, if_neg fun both => real both.1] at within
    by_cases free : room.place ∈ final.pool.free
    · exact .inl ⟨free, by omega⟩
    obtain ⟨entry, noted, here⟩ := settled.names_taken (begins before) free
    have known : room.place ∈ final.pool.places := by
      rw [settled.moves.run.places_eq]
      exact settled.genuine.sound.free_known _ (begins before)
    have seated_eq : seated middle room.place.room.name = seated final room.place.room.name := by
      refine (settled.students_again begun renewed (fun _ => rfl) fun entry plain => ?_).length_eq
      by_cases here : entry.room = room.place.room.name <;> simp [isReal, seatedIn, plain, here, real]
    rcases settled.accounted.lodges room.place known with nobody | ⟨⟨other, present, place⟩, -⟩ | ⟨-, single, needed⟩
    · obtain ⟨student, sits⟩ := List.exists_mem_of_ne_nil _ (settled.replayable.filled entry noted)
      have plain := settled.replayable.plain entry noted
      have seated : student ∈ studentsOf (seatedIn room.place.room.name) final.seatings :=
        mem_studentsOf.mpr ⟨entry, (List.mem_filter.mp noted).1, by simp [seatedIn, plain, here], sits⟩
      rw [nobody] at seated
      cases seated
    · have leaves := settled.leaves other present
      rw [place] at leaves
      exact .inr (.inl ⟨other, present, place, by omega⟩)
    · refine .inr (.inr ⟨?_, _, single, needed⟩)
      have one : seated final room.place.room.name = 1 := by rw [seated, single, List.length_singleton]
      omega

end

end Settled

end Timetable.Proofs.PinsAgain
