import Timetable.Proofs.PinsAgain

/-! Students who sit alone when their plan is made again with all its entries as pins. Who found no seat
before finds none now, and no room that somebody has alone is given to others, as long as no student with
additional time was turned away whom it would suit. -/

namespace Timetable.Proofs.AloneAgain
open SeatDemands SeatEntries SeatPool SeatingSteps SeatingPhases SlotRounds RoomCapacity SeatedStudents
  SeatingReplay RoomsAgain SeatReasons SeatMoves RoomsAlone PinsAgain Returned

variable {allocator : Allocator} {records : List Accommodation} {blocked others : List Block} {slot : Slot}
  {exams : List Exam} {exam : Exam} {threshold : Nat} {pool : Pool} {place : Place} {needs : RoomNeeds}
  {start before middle after final round again : Round} {entry : Seating} {entries kept pinned : List Seating}
  {student : StudentId} {demand : Demand} {timed : TimedStudent} {ancode : Ancode} {params : RoomParams}

/-- Normal students are seated or turned away, without a fault. -/
theorem exists_seatNormal (index : Nat) : ∃ after, before.seatNormal params demand index = .ok after := by
  unfold Round.seatNormal
  simp only
  split
  · exact exists_seat fun long => absurd long.1 (by simp)
  · exact ⟨_, rfl⟩

private theorem exists_seatNormals (steps : Nat) : ∃ after, before.seatNormals params steps = .ok after := by
  induction steps generalizing before with
  | zero => exact ⟨before, rfl⟩
  | succ steps ih =>
    unfold Round.seatNormals
    split
    · exact ⟨before, rfl⟩
    · rename_i demand index _
      obtain ⟨middle, first⟩ := @exists_seatNormal before demand params index
      obtain ⟨after, rest⟩ := @ih middle
      exact ⟨after, (ok_bind first).trans rest⟩

structure TurnedAway (threshold : Nat) (before : Round) (entries : List Seating) (after : Round) : Prop where
  run : Run threshold before entries after
  pool : after.pool = before.pool
  nowhere : ∀ entry ∈ entries, entry.room = Room.placeholder ∧ entry.accommodated = false

theorem TurnedAway.one {sitting : Sitting} {students : List StudentId} (reason : ShortfallReason) :
    TurnedAway threshold before [⟨before.slot, Room.placeholder, sitting.ancode, sitting.duration, students, false,
      false⟩] (before.fallShort sitting students reason) where
  run := .single (.short rfl rfl rfl rfl)
  pool := rfl
  nowhere entry single := by
    rw [List.mem_singleton.mp single]
    exact ⟨rfl, rfl⟩

theorem TurnedAway.append {later : List Seating} (first : TurnedAway threshold before entries middle)
    (rest : TurnedAway threshold middle later after) : TurnedAway threshold before (entries ++ later) after where
  run := first.run.append rest.run
  pool := rest.pool.trans first.pool
  nowhere := List.forall_mem_append.mpr ⟨first.nowhere, rest.nowhere⟩

private theorem fold_away {α : Type} {f : Round → α → Except Fault Round} {items : List α}
    (each : ∀ item ∈ items, ∀ round, round.pool = before.pool →
      ∃ entries after, f round item = .ok after ∧ TurnedAway threshold round entries after) :
    ∃ entries after, items.foldlM f before = .ok after ∧ TurnedAway threshold before entries after := by
  induction items generalizing before with
  | nil => exact ⟨[], before, rfl, .done _, rfl, by simp⟩
  | cons item items ih =>
    rw [List.forall_mem_cons] at each
    obtain ⟨entries, middle, returned, first⟩ := each.1 before rfl
    obtain ⟨later, after, others, rest⟩ := @ih middle fun other member round same =>
      each.2 other member round (same.trans first.pool)
    refine ⟨entries ++ later, after, ?_, first.append rest⟩
    rw [List.foldlM_cons, returned]
    exact others

private theorem seatExtended_away (shared : Shared before.pool) (refuses : Refuses (.ofExam exam) before.pool) :
    ∃ entries after, before.seatExtended threshold exam timed = .ok after ∧
      TurnedAway threshold before entries after := by
  unfold Round.seatExtended
  simp only [(roomForExtended?_eq_none shared).mpr refuses]
  exact ⟨_, _, rfl, .one _⟩

private theorem seatAlone_away (denies : Denies (RoomNeeds.ofExam exam).withAccessible before.pool) :
    ∃ entries after, before.seatAlone threshold exam timed = .ok after ∧
      TurnedAway threshold before entries after := by
  unfold Round.seatAlone
  simp only [takeSmallest?_eq_none.mpr denies]
  exact ⟨_, _, rfl, .one _⟩

private theorem seatAccommodated_away (shared : Shared before.pool)
    (extended : ∀ timed ∈ demand.extended, Refuses (.ofExam demand.exam) before.pool)
    (alone : ∀ timed ∈ demand.alone, Denies (RoomNeeds.ofExam demand.exam).withAccessible before.pool) :
    ∃ entries after, before.seatAccommodated threshold demand = .ok after ∧
      TurnedAway threshold before entries after := by
  obtain ⟨entries, middle, returned, first⟩ : ∃ entries after,
      demand.extended.foldlM (Round.seatExtended threshold demand.exam) before = .ok after ∧
        TurnedAway threshold before entries after :=
    fold_away fun timed member _ same => seatExtended_away (same ▸ shared) (same ▸ extended timed member)
  obtain ⟨later, after, others, rest⟩ : ∃ entries after,
      demand.alone.foldlM (Round.seatAlone threshold demand.exam) middle = .ok after ∧
        TurnedAway threshold middle entries after :=
    fold_away fun timed member _ same => seatAlone_away (same.trans first.pool ▸ alone timed member)
  exact ⟨entries ++ later, after, (ok_bind returned).trans others, first.append rest⟩

/-- Where an entry of a row of moves can be: nowhere, in a room that suits its exam, or alone. -/
theorem Moves.placed (moves : Moves records threshold exams before entries after) (sound : Sound before.pool) :
    ∀ entry ∈ entries, ∃ exam ∈ exams, exam.ancode = entry.ancode ∧ (entry.room = Room.placeholder ∨
      (∃ place, Holds before.pool place ∧ entry.room = place.room.name ∧
        (RoomNeeds.ofExam exam).satisfiedBy place.room = true) ∨
      ∃ student ∈ entry.students, reasonFor records student = .noRoomToSitAlone) := by
  induction moves with
  | done => simp
  | @next before middle after entry entries exam known move _ ih =>
    refine List.forall_mem_cons.mpr ⟨⟨exam, known, move.ancode.symm, ?_⟩, fun other member => ?_⟩
    · cases move.turn with
      | shared held room _ suits => exact .inr (.inl ⟨_, held, room, suits⟩)
      | alone _ _ _ _ single needed => exact .inr (.inr ⟨_, by simp [single], needed⟩)
      | short room => exact .inl room
    · obtain ⟨exam, listed, own, placed⟩ := ih (move.step.sound sound) other member
      refine ⟨exam, listed, own, placed.imp_right (.imp_left ?_)⟩
      rintro ⟨place, held, room, suits⟩
      exact ⟨place, move.step.holds sound held, room, suits⟩

/-- Students with additional time for whom the rooms of those who sit alone are no choice. -/
def Spared (records : List Accommodation) (exams : List Exam) (round : Round) : Prop :=
  ∀ shortfall ∈ round.shortfalls, shortfall.reason = .noSeatForExtendedTime →
    ∀ exam ∈ exams, exam.ancode = shortfall.ancode → ∀ place ∈ round.pool.places, ∀ student,
      Solitary records round place student →
        place.room.seats ≤ 1 ∨ (RoomNeeds.ofExam exam).satisfiedBy place.room = false

theorem Left.denies (left : Left records final pool) (denies : Denies needs final.pool) : Denies needs pool :=
  fun place free => denies place (left.free place free)

theorem Left.refuses (left : Left records final pool) (refuses : Refuses needs final.pool)
    (spared : ∀ room ∈ pool.used, ∀ student, Solitary records final room.place student →
      room.place.room.seats ≤ 1 ∨ needs.satisfiedBy room.place.room = false) : Refuses needs pool := by
  refine ⟨Left.denies left refuses.1, fun room used seats => ?_⟩
  rcases left.used room used seats with ⟨free, roomy⟩ | ⟨other, present, same, seats⟩ | ⟨roomy, student, alone⟩
  · exact unsatisfied (refuses.1 _ free) roomy
  · rw [← same]
    exact refuses.2 other present seats
  · exact (spared room used student alone).resolve_left (by omega)

/-- An entry that takes no seat of a room somebody has alone, and blocks none. -/
def Aside (records : List Accommodation) (final : Round) (entry : Seating) : Prop :=
  entry.reserve = true ∧ entry.students = [] ∨ entry.accommodated = false ∧
    ∀ place ∈ final.pool.places, ∀ student, Solitary records final place student → entry.room ≠ place.room.name

section
variable (settled : Settled allocator records blocked slot exams start final round entries kept)
  (begun : allocator.start records others slot exams = .ok again)
  (same : again = { start with blocked := others })
  (renewed : Renewed records allocator.params.longDurationThreshold exams again final kept middle)
include settled renewed

/-- Who still waits was turned away before, for a reason that holds. -/
theorem still_denied (waiting : student ∈ remaining ancode middle.demands) (listed : exam ∈ exams)
    (own : exam.ancode = ancode) : Denied (reasonFor records student) exam final.pool ∧
      ∃ shortfall ∈ final.shortfalls, shortfall.ancode = ancode ∧ shortfall.reason = reasonFor records student := by
  obtain ⟨-, -, explained, justified⟩ := settled.accounted
  obtain ⟨shortfall, short, equal, reason⟩ := explained ancode student (renewed.waiting ancode student waiting)
  refine ⟨?_, shortfall, short, equal, reason⟩
  rw [← reason]
  exact justified shortfall short exam listed (own.trans equal.symm)

include same

private theorem final_genuine : Genuine middle.pool ∧ middle.pool.places = final.pool.places := by
  have genuine : Genuine again.pool := same ▸ settled.genuine
  refine ⟨genuine.run renewed.run, ?_⟩
  rw [renewed.run.places_eq, settled.moves.run.places_eq, same]

/-- Normal students who are seated now sit in no room that somebody has alone. -/
theorem normals_aside {params : RoomParams} {steps : Nat} (returned : middle.seatNormals params steps = .ok after) :
    ∃ later, Moves records params.longDurationThreshold exams middle later after ∧
      (∀ entry ∈ later, Aside records final entry) ∧
      after.demands.map accommodated = middle.demands.map accommodated := by
  obtain ⟨genuine, places⟩ := final_genuine settled same renewed
  obtain ⟨later, moves, plain, -, unchanged⟩ := seatNormals_moves genuine.sound renewed.sorted returned
  rw [renewed.exams] at moves
  refine ⟨later, moves, fun entry noted => .inr ⟨(plain entry noted).1, ?_⟩, unchanged⟩
  intro place known student alone here
  obtain ⟨exam, listed, own, placed⟩ := Moves.placed moves genuine.sound entry noted
  rw [← places] at known
  rcases placed with nowhere | ⟨other, held, room, suits⟩ | ⟨other, seated, needed⟩
  · exact genuine.real place known (here.symm.trans nowhere)
  · obtain rfl := Lookups.eq_of_key genuine.named (held.known genuine.sound) known (room.symm.trans here)
    obtain ⟨first, seated⟩ := List.exists_mem_of_ne_nil _ (moves.logged entry noted).2.1
    obtain ⟨normal, waiting⟩ := (plain entry noted).2 first seated
    obtain ⟨-, shortfall, short, equal, reason⟩ := still_denied settled renewed waiting listed own
    have barred := settled.barred shortfall short (reason.trans normal) exam listed (own.trans equal.symm) other
      (places ▸ known) student (by rw [alone.1]; exact List.mem_singleton_self _) alone.2
    rw [suits] at barred
    cases barred
  · rw [((plain entry noted).2 other seated).1] at needed
    cases needed

include begun

/-- Students with additional time and students who need a room alone find none after the pins. -/
theorem accommodated_denied (spared : Spared records exams final) (member : demand ∈ middle.demands) :
    (∀ timed ∈ demand.extended, Refuses (.ofExam demand.exam) middle.pool) ∧
      ∀ timed ∈ demand.alone, Denies (RoomNeeds.ofExam demand.exam).withAccessible middle.pool := by
  have left := settled.left_again begun same renewed
  have listed : demand.exam ∈ exams := renewed.exams ▸ List.mem_map_of_mem member
  have waits {timed : TimedStudent} (inside : timed ∈ demand.extended ++ demand.alone) :
      timed.student ∈ remaining demand.exam.ancode middle.demands :=
    mem_remaining.mpr ⟨demand, member, rfl, List.mem_append_right _ (List.mem_map_of_mem inside)⟩
  constructor
  · intro timed inside
    obtain ⟨denied, shortfall, short, own, reason⟩ :=
      still_denied settled renewed (waits (List.mem_append_left _ inside)) listed rfl
    rw [(renewed.sorted demand member).extended timed inside] at denied reason
    refine Left.refuses left denied fun room used student alone => ?_
    obtain ⟨genuine, places⟩ := final_genuine settled same renewed
    exact spared shortfall short reason demand.exam listed own.symm room.place
      (places ▸ genuine.sound.used_known room used) student alone
  · intro timed inside
    obtain ⟨denied, -⟩ := still_denied settled renewed (waits (List.mem_append_right _ inside)) listed rfl
    rw [(renewed.sorted demand member).alone timed inside] at denied
    exact Left.denies left denied

private theorem phases_again (spared : Spared records exams final) :
    ∃ later last, (do
      let round ← middle.seatNormals allocator.params middle.normalCount
      let round ← round.demands.foldlM
        (Round.seatAccommodated allocator.params.longDurationThreshold) round
      return round.keepReserves allocator.params.reserveMinStudents : Except Fault Round) = .ok last ∧
      Run allocator.params.longDurationThreshold middle later last ∧
      ∀ entry ∈ later, Aside records final entry := by
  obtain ⟨genuine, places⟩ := final_genuine settled same renewed
  obtain ⟨seated, normals⟩ := @exists_seatNormals middle allocator.params middle.normalCount
  obtain ⟨early, moves, asides, unchanged⟩ := normals_aside settled same renewed normals
  have shared : Shared seated.pool := by
    have begins : Shared again.pool := start_shared begun
    exact moves.shared (renewed.run.preserves (fun round => Shared round.pool) step_shared begins)
  have narrows := run_narrows moves.run
  obtain ⟨late, last, turned, away⟩ : ∃ entries after,
      seated.demands.foldlM (Round.seatAccommodated allocator.params.longDurationThreshold) seated = .ok after ∧
        TurnedAway allocator.params.longDurationThreshold seated entries after := by
    refine fold_away fun demand member round equal => ?_
    obtain ⟨other, listed, alike⟩ := List.mem_map.mp (unchanged ▸ List.mem_map_of_mem member)
    obtain ⟨refuses, denies⟩ := accommodated_denied settled begun same renewed spared listed
    have exam : other.exam = demand.exam := congrArg (fun demand => demand.exam) alike
    have extended : other.extended = demand.extended := congrArg (fun demand => demand.extended) alike
    have alone : other.alone = demand.alone := congrArg (fun demand => demand.alone) alike
    rw [exam, extended] at refuses
    rw [exam, alone] at denies
    refine seatAccommodated_away (equal ▸ shared) (fun timed inside => ?_) fun timed inside => ?_
    · exact equal ▸ narrows.refuses (refuses timed inside)
    · exact equal ▸ narrows.denies (denies timed inside)
  obtain ⟨reserved, reserving, reserves⟩ := keepReserves_run allocator.params.longDurationThreshold
    allocator.params.reserveMinStudents last
  refine ⟨early ++ (late ++ reserved), _, (ok_bind normals).trans ((ok_bind turned).trans rfl),
    moves.run.append (away.run.append reserving), ?_⟩
  refine List.forall_mem_append.mpr ⟨asides, List.forall_mem_append.mpr ⟨fun entry noted => ?_, fun entry noted => ?_⟩⟩
  · obtain ⟨nowhere, plain⟩ := away.nowhere entry noted
    refine .inr ⟨plain, fun place known _ _ here => ?_⟩
    exact genuine.real place (places ▸ known) (here.symm.trans nowhere)
  · obtain ⟨kept, empty, -⟩ := reserves entry noted
    exact .inl ⟨kept, empty⟩

end

/-- What is pinned blocks the same rooms again, and what is added blocks none. -/
theorem blocks_again {later : List Seating} {last : Round} {block : Block}
    (settled : Settled allocator records blocked slot exams start final round entries kept)
    (same : again = { start with blocked := others }) (equal : ∀ block, block ∈ others ↔ block ∈ blocked)
    (run : Run allocator.params.longDurationThreshold again (final.seatings.filter isReal ++ kept ++ later) last)
    (asides : ∀ entry ∈ later, Aside records final entry) : block ∈ last.blocked ↔ block ∈ round.blocked := by
  have genuine : Genuine again.pool := same ▸ settled.genuine
  have places : again.pool.places = start.pool.places := by rw [same]
  have begins : again.blocked = others := by rw [same]
  rw [run.mem_blocked genuine.sound genuine.named, settled.round_eq.2.2.1,
    settled.moves.run.mem_blocked settled.genuine.sound settled.genuine.named, begins, equal,
    (start_empty settled.started).2.2.2, places]
  refine or_congr_right ⟨?_, ?_⟩
  · rintro ⟨entry, noted, adds⟩
    rcases List.mem_append.mp noted with pinned | added
    · rcases List.mem_append.mp pinned with real | reserved
      · have member := (List.mem_filter.mp real).1
        obtain ⟨logged, listed, alike⟩ := settled.exists_logged member
        have adds : Adds _ _ (key entry) block := adds
        rw [← alike] at adds
        exact ⟨logged, listed, adds⟩
      · exact absurd adds.1 (by simp [(settled.reserves entry reserved).1])
    · rcases asides entry added with ⟨reserved, -⟩ | ⟨plain, -⟩
      · exact absurd adds.1 (by simp [reserved])
      · exact absurd adds.2.1.1 (by simp [plain])
  · rintro ⟨entry, noted, adds⟩
    obtain ⟨listed, member, alike⟩ := settled.exists_merged noted
    have adds : Adds _ _ (key entry) block := adds
    rw [← alike] at adds
    obtain ⟨-, -, place, known, name, -⟩ := id adds
    have real : isReal listed = true := by
      have real := settled.genuine.real place known
      rw [name] at real
      exact decide_eq_true real
    exact ⟨listed, List.mem_append_left _ (List.mem_append_left _ (List.mem_filter.mpr ⟨member, real⟩)), adds⟩

def NeedsRoomAlone (records : List Accommodation) (student : StudentId) : Prop :=
  ∃ record, Accommodation.of? records student = some record ∧ record.needsRoomAlone = true

theorem needs_alone : reasonFor records student = .noRoomToSitAlone ↔ NeedsRoomAlone records student := by
  unfold reasonFor Grant.of NeedsRoomAlone
  cases Accommodation.of? records student with
  | none => simp
  | some record =>
    cases alone : record.needsRoomAlone
    · by_cases extra : 0 < record.extraPercent <;> simp [alone, extra]
    · simp [alone]

/-- Where a student with additional time was turned away, no room that somebody has alone in the slot has
another seat and suits the exam. -/
def Spares (records : List Accommodation) (rooms : List Room) (exams : List Exam) (shortfalls : List Shortfall)
    (seatings : List Seating) : Prop :=
  ∀ shortfall ∈ shortfalls, shortfall.reason = .noSeatForExtendedTime →
    ∀ exam ∈ exams, exam.ancode = shortfall.ancode →
      ∀ entry ∈ seatings, (∃ student ∈ entry.students, NeedsRoomAlone records student) →
        ∀ room ∈ rooms, room.name = entry.room →
          room.seats ≤ 1 ∨ (RoomNeeds.ofExam exam).satisfiedBy room = false

section
variable (settled : Settled allocator records blocked slot exams start final round entries kept)
include settled

private theorem spared_of_spares (spares : Spares records allocator.rooms exams round.shortfalls round.seatings) :
    Spared records exams final := by
  obtain ⟨seatings, shortfalls, -⟩ := settled.round_eq
  intro shortfall short reason exam listed own place known student alone
  have seated : student ∈ studentsOf (seatedIn place.room.name) final.seatings := by
    rw [alone.1]
    exact List.mem_singleton_self student
  obtain ⟨entry, noted, here, sits⟩ := mem_studentsOf.mp seated
  simp only [seatedIn, Bool.and_eq_true, decide_eq_true_eq] at here
  have listed_room : place.room ∈ allocator.rooms := by
    rw [settled.moves.run.places_eq, start_places settled.started] at known
    rw [← ofRooms_rooms allocator.rooms]
    exact List.mem_map_of_mem known
  exact spares shortfall (shortfalls ▸ short) reason exam listed own entry
    (seatings ▸ List.mem_append_left _ noted) ⟨student, sits, needs_alone.mp alone.2⟩ place.room listed_room here.2.symm

/-- Who needs a room alone and has a room has it alone. -/
theorem exists_solitary (member : entry ∈ round.seatings) (real : entry.room ≠ Room.placeholder)
    (seated : student ∈ entry.students) (needs : NeedsRoomAlone records student) :
    ∃ place ∈ final.pool.places, entry.room = place.room.name ∧ Solitary records final place student := by
  rw [settled.round_eq.1] at member
  have noted : entry ∈ final.seatings.filter isReal := by
    rcases List.mem_append.mp member with noted | reserved
    · exact List.mem_filter.mpr ⟨noted, decide_eq_true real⟩
    · rw [(settled.reserves entry reserved).2.1] at seated
      cases seated
  obtain ⟨place, held, here⟩ := settled.replayable.housed entry noted
  have known : place ∈ final.pool.places := settled.moves.run.places_eq ▸ held.known settled.genuine.sound
  have sits : student ∈ studentsOf (seatedIn place.room.name) final.seatings :=
    mem_studentsOf.mpr ⟨entry, (List.mem_filter.mp noted).1,
      by simp [seatedIn, settled.replayable.plain entry noted, here], seated⟩
  refine ⟨place, known, here, ?_⟩
  rcases settled.accounted.lodges place known with nobody | ⟨-, company⟩ | ⟨-, single, needed⟩
  · rw [nobody] at sits
    cases sits
  · exact absurd (needs_alone.mpr needs) (company student sits)
  · rw [single] at sits
    obtain rfl := List.mem_singleton.mp sits
    exact ⟨single, needed⟩

end

/-- A slot is seated again with its entries as pins, and who has a room alone keeps it. -/
theorem allocateSlot_again (named : (allocator.rooms.map (·.name)).Nodup)
    (real : ∀ room ∈ allocator.rooms, room.name ≠ Room.placeholder) (distinct : (exams.map (·.ancode)).Nodup)
    (returned : allocator.allocateSlot records [] blocked slot exams = .ok round)
    (spares : Spares records allocator.rooms exams round.shortfalls round.seatings)
    (pins : pinned.filter (·.slot = slot) = round.seatings) (equal : ∀ block, block ∈ others ↔ block ∈ blocked) :
    ∃ last, allocator.allocateSlot records pinned others slot exams = .ok last ∧
      (∀ block, block ∈ last.blocked ↔ block ∈ round.blocked) ∧
      ∀ entry ∈ round.seatings, entry.room ≠ Room.placeholder → ∀ student ∈ entry.students,
        NeedsRoomAlone records student → studentsOf (·.room = entry.room) last.seatings = [student] := by
  obtain ⟨start, final, entries, kept, settled⟩ := exists_settled named real distinct returned
  have begun := start_again equal settled.started
  obtain ⟨middle, pinned, renewed⟩ := settled.pins_again begun rfl
  obtain ⟨later, last, phases, run, asides⟩ :=
    phases_again settled begun rfl renewed (spared_of_spares settled spares)
  refine ⟨last, ?_, fun block => ?_, fun entry member real student seated needs => ?_⟩
  · rw [← pins] at pinned
    exact (ok_bind begun).trans ((ok_bind pinned).trans phases)
  · exact blocks_again settled rfl equal (renewed.run.append run) asides
  · obtain ⟨place, known, here, alone⟩ := exists_solitary settled member real seated needs
    have nameless : place.room.name ≠ Room.placeholder := here ▸ real
    have noted : (studentsOf (·.room = place.room.name) last.seatings).Perm _ := run.students fun _ => rfl
    have aside : studentsOf (·.room = place.room.name) later = [] := by
      refine studentsOf_none fun other added there => ?_
      rcases asides other added with ⟨-, empty⟩ | ⟨-, elsewhere⟩
      · exact empty
      · exact absurd (of_decide_eq_true there) (elsewhere place known student alone)
    rw [aside, List.append_nil] at noted
    have pinned : (studentsOf (·.room = place.room.name) middle.seatings).Perm
        (studentsOf (seatedIn place.room.name) final.seatings) :=
      settled.students_again begun renewed (fun _ => rfl) fun entry plain => by
        by_cases there : entry.room = place.room.name <;> simp [isReal, seatedIn, plain, there, nameless]
    rw [here]
    exact List.perm_singleton.mp (alone.1 ▸ noted.trans pinned)

/-- Slot by slot the blocked rooms are the same, so every slot is seated again as it was pinned. -/
theorem allocateFrom_again {agenda : Agenda Exam} {plan : RoomPlan}
    (named : (allocator.rooms.map (·.name)).Nodup) (real : ∀ room ∈ allocator.rooms, room.name ≠ Room.placeholder)
    (slots : (agenda.map (·.1)).Nodup) (distinct : ∀ item ∈ agenda, (item.2.map (·.ancode)).Nodup)
    (returned : allocator.allocateFrom records [] blocked agenda = .ok plan)
    (spares : ∀ item ∈ agenda, Spares records allocator.rooms item.2 (plan.shortfalls.filter (·.slot = item.1))
      (plan.seatings.filter (·.slot = item.1)))
    (pins : ∀ item ∈ agenda, pinned.filter (·.slot = item.1) = plan.seatings.filter (·.slot = item.1))
    (same : ∀ block, block ∈ others ↔ block ∈ blocked) :
    ∃ second, allocator.allocateFrom records pinned others agenda = .ok second ∧
      ∀ entry ∈ plan.seatings, entry.room ≠ Room.placeholder → ∀ student ∈ entry.students,
        NeedsRoomAlone records student → studentsOf (inRoom entry.slot entry.room) second.seatings = [student] := by
  induction agenda generalizing blocked others plan with
  | nil =>
    obtain rfl := Except.ok.inj returned
    exact ⟨_, rfl, by simp⟩
  | cons item rest ih =>
    obtain ⟨round, first, returned⟩ := bind_ok returned
    obtain ⟨later, following, returned⟩ := bind_ok returned
    obtain rfl := pure_ok returned
    obtain ⟨_, _, _, _, seats⟩ := exists_seats first
    rw [List.map_cons, List.nodup_cons] at slots
    rw [List.forall_mem_cons] at distinct pins spares
    have parted := rounds_parted first following slots.1
    rw [parted.here, parted.missing] at spares
    obtain ⟨last, allocated, blocks, kept⟩ :=
      allocateSlot_again named real distinct.1 first spares.1 (pins.1.trans parted.here) same
    have later_spares : ∀ other ∈ rest, Spares records allocator.rooms other.2
        (later.shortfalls.filter (·.slot = other.1)) (later.seatings.filter (·.slot = other.1)) := by
      intro other member
      have listed : other.1 ∈ rest.map (·.1) := List.mem_map_of_mem member
      rw [← parted.there _ listed, ← parted.elsewhere _ listed]
      exact spares.2 other member
    obtain ⟨second, allocatedFrom, others⟩ := ih slots.2 distinct.2 following later_spares
      (fun other member => (pins.2 other member).trans (parted.there _ (List.mem_map_of_mem member))) blocks
    have again := rounds_parted allocated allocatedFrom slots.1
    have inside (slot : Slot) (name : RoomName) (entries : List Seating) :
        studentsOf (inRoom slot name) entries = studentsOf (·.room = name) (entries.filter (·.slot = slot)) :=
      studentsOf_slot (fun _ => Bool.and_comm ..) entries
    refine ⟨_, (ok_bind allocated).trans ((ok_bind allocatedFrom).trans rfl), ?_⟩
    intro entry member real student seated needs
    rcases List.mem_append.mp member with member | member
    · rw [inside, seats.seating_slots entry member, again.here]
      exact kept entry member real student seated needs
    · rw [inside, again.there _ ((plan_slots following).1 entry member), ← inside]
      exact others entry member real student seated needs

/-- Whoever sits alone sits alone again when the plan is made anew with all its entries as pins. -/
theorem alone_stays_alone {rooms : List Room} {config : Config} {agenda : Agenda Exam} {first : RoomPlan}
    (named : (rooms.map (·.name)).Nodup) (real : ∀ room ∈ rooms, room.name ≠ Room.placeholder)
    (slots : (agenda.map (·.1)).Nodup) (distinct : ∀ item ∈ agenda, (item.2.map (·.ancode)).Nodup)
    (returned : (Allocator.ofConfig rooms config).allocate agenda records [] = .ok first)
    (spares : ∀ item ∈ agenda, Spares records (Allocator.ofConfig rooms config).rooms item.2
      (first.shortfalls.filter (·.slot = item.1)) (first.seatings.filter (·.slot = item.1))) :
    ∃ second, (Allocator.ofConfig rooms config).allocate agenda records first.seatings = .ok second ∧
      ∀ entry ∈ first.seatings, entry.room ≠ Room.placeholder → ∀ student ∈ entry.students,
        NeedsRoomAlone records student → studentsOf (inRoom entry.slot entry.room) second.seatings = [student] := by
  exact allocateFrom_again (ofConfig_named named config) (ofConfig_real real config) slots distinct returned spares
    (fun _ _ => rfl) fun _ => .rfl

def booth : Room :=
  { name := "R", seats := 2, lab := false, restrictedSoftware := false, sockets := false, accessible := true }

/-- One exam of a student who needs a room alone, and one that needs sockets. -/
def aloneAndLonger : Agenda Exam :=
  [(⟨1, 1⟩, [
    { ancode := 1, title := "", examiner := "prof", duration := 90, category := .regular,
      registrations := [⟨"IF", ["a"]⟩], constraints := {} },
    { ancode := 2, title := "", examiner := "prof", duration := 90, category := .regular,
      registrations := [⟨"IF", ["x"]⟩], constraints := { rooms := { sockets := true } } }])]

def oneEach : List Accommodation := [⟨"a", 0, true⟩, ⟨"x", 10, false⟩]

/-- The student with additional time is turned away again, and the booth keeps its free seat. -/
theorem booth_stays_quiet :
    ∃ first second, (Allocator.ofConfig [booth] {}).allocate aloneAndLonger oneEach [] = .ok first ∧
      first.shortfalls = [⟨⟨1, 1⟩, 2, 1, .noSeatForExtendedTime⟩] ∧
      (Allocator.ofConfig [booth] {}).allocate aloneAndLonger oneEach first.seatings = .ok second ∧
      studentsOf (inRoom ⟨1, 1⟩ "R") second.seatings = ["a"] := by
  obtain ⟨first, returned, short, seated⟩ : ∃ first,
      (Allocator.ofConfig [booth] {}).allocate aloneAndLonger oneEach [] = .ok first ∧
        first.shortfalls = [⟨⟨1, 1⟩, 2, 1, .noSeatForExtendedTime⟩] ∧
        (⟨⟨1, 1⟩, "R", 1, 90, ["a"], true, false⟩ : Seating) ∈ first.seatings :=
    ⟨_, rfl, by decide, by decide⟩
  have spares : ∀ item ∈ aloneAndLonger, Spares oneEach (Allocator.ofConfig [booth] {}).rooms item.2
      (first.shortfalls.filter (·.slot = item.1)) (first.seatings.filter (·.slot = item.1)) := by
    rintro item single shortfall member - exam listed own entry - - room known -
    have unsuited : ∀ room ∈ (Allocator.ofConfig [booth] {}).rooms, ∀ item ∈ aloneAndLonger, ∀ exam ∈ item.2,
        exam.ancode = 2 → (RoomNeeds.ofExam exam).satisfiedBy room = false := by decide
    have missed := (List.mem_filter.mp member).1
    rw [short, List.mem_singleton] at missed
    rw [missed] at own
    exact .inr (unsuited room known item single exam listed own)
  obtain ⟨second, again, kept⟩ :=
    alone_stays_alone (by decide) (by decide) (by decide) (by decide) returned spares
  exact ⟨first, second, returned, short, again,
    kept _ seated (by decide) "a" (by decide) ⟨⟨"a", 0, true⟩, rfl, rfl⟩⟩

def wiredBooth : Room := { booth with sockets := true }

/-- The student with additional time joins the one who needs the room alone. -/
theorem wired_booth_is_shared :
    ∃ first second, (Allocator.ofConfig [wiredBooth] {}).allocate aloneAndLonger oneEach [] = .ok first ∧
      (⟨⟨1, 1⟩, "R", 1, 90, ["a"], true, false⟩ : Seating) ∈ first.seatings ∧ NeedsRoomAlone oneEach "a" ∧
      (Allocator.ofConfig [wiredBooth] {}).allocate aloneAndLonger oneEach first.seatings = .ok second ∧
      studentsOf (inRoom ⟨1, 1⟩ "R") second.seatings = ["a", "x"] :=
  ⟨_, _, rfl, by decide, ⟨⟨"a", 0, true⟩, rfl, rfl⟩, rfl, by decide⟩

end Timetable.Proofs.AloneAgain
