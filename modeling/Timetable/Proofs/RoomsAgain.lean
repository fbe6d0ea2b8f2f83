import Timetable.Proofs.SeatingReplay

/-! Rooms allocated again with all entries of an earlier allocation as pins. Slot by slot the rooms
that are blocked are the same, so every slot is seated as before. -/

namespace Timetable.Proofs.RoomsAgain
open SeatDemands SeatEntries SeatPool SeatingSteps SeatingPhases SlotRounds RoomCapacity SeatedStudents
  SeatingReplay Returned

variable {allocator : Allocator} {records : List Accommodation} {pinned : List Seating}
  {blocked others : List Block} {slot : Slot} {exams : List Exam} {agenda : Agenda Exam}
  {plan : RoomPlan} {start middle round : Round} {honoured entries : List Seating} {entry : Seating}
  {threshold : Nat} {places : List Place} {block : Block}

/-- The order in which rooms were blocked does not matter. -/
theorem start_again (same : ∀ block, block ∈ others ↔ block ∈ blocked)
    (started : allocator.start records blocked slot exams = .ok start) :
    allocator.start records others slot exams = .ok { start with blocked := others } := by
  obtain ⟨demands, listed, started⟩ := bind_ok started
  obtain rfl := pure_ok started
  have closed : ∀ block, others.contains block = blocked.contains block := by
    intro block
    rw [Bool.eq_iff_iff, List.contains_iff_mem, List.contains_iff_mem, same]
  refine (ok_bind listed).trans ?_
  simp only [closed]
  rfl

theorem start_fresh (started : allocator.start records blocked slot exams = .ok start)
    (named : (allocator.rooms.map (·.name)).Nodup) (distinct : (exams.map (·.ancode)).Nodup) :
    Fresh start where
  sound := start_sound started
  named := start_named started named
  distinct := by
    rw [← start_exams started, List.map_map] at distinct
    exact distinct
  unused := start_pool started ▸ rfl
  seatings := (start_empty started).2.1
  shortfalls := (start_empty started).2.2.1

/-- Only the key of an entry decides what it blocks. -/
theorem exists_adds {first second : List Seating}
    (keys : ∀ other, other ∈ first.map key ↔ other ∈ second.map key) :
    (∃ entry ∈ first, Adds threshold places entry block) ↔
      ∃ entry ∈ second, Adds threshold places entry block := by
  have by_key (entries : List Seating) : (∃ entry ∈ entries, Adds threshold places entry block) ↔
      ∃ other ∈ entries.map key, Adds threshold places other block := by
    constructor
    · rintro ⟨entry, member, adds⟩
      exact ⟨key entry, List.mem_map_of_mem member, adds⟩
    · rintro ⟨other, listed, adds⟩
      obtain ⟨entry, member, rfl⟩ := List.mem_map.mp listed
      exact ⟨entry, member, adds⟩
  rw [by_key first, by_key second]
  simp only [keys]

/-- What is blocked after a slot was blocked before it or is blocked by an entry of it. -/
theorem mem_blocked
    (seats : Seats allocator records pinned blocked slot exams round start middle honoured entries)
    (named : (allocator.rooms.map (·.name)).Nodup) :
    block ∈ round.blocked ↔ block ∈ blocked ∨ ∃ entry ∈ round.seatings,
      Adds allocator.params.longDurationThreshold (Place.ofRooms allocator.rooms) entry block := by
  rw [seats.run.mem_blocked (start_sound seats.started) (start_named seats.started named),
    (start_empty seats.started).2.2.2, start_places seats.started]
  exact or_congr_right (exists_adds fun _ => seats.keys).symm

section
variable (seats : Seats allocator records pinned blocked slot exams round start middle honoured entries)
  (unpinned : pinned = []) (unreserved : allocator.params.reserveMinStudents = 0)
include seats unpinned unreserved

private theorem logged_plain : ∀ entry ∈ honoured ++ entries, entry.reserve = false ∧ entry.students ≠ [] := by
  rw [unpinned_empty seats unpinned, List.nil_append]
  intro entry noted
  cases reserved : entry.reserve with
  | false => exact ⟨rfl, seats.fills.filled entry noted reserved⟩
  | true => exact absurd unreserved (seats.fills.reserves entry noted reserved).2.1

/-- The entries of a slot that found seats for all can be pinned in it again. -/
theorem seatings_replayable (named : (allocator.rooms.map (·.name)).Nodup)
    (distinct : (exams.map (·.ancode)).Nodup) (short : round.shortfalls = []) :
    Replayable allocator.params.longDurationThreshold start round.seatings := by
  have known : ∀ entry ∈ honoured ++ entries, ∃ exam ∈ start.demands.map (·.exam), exam.ancode = entry.ancode := by
    rw [start_exams seats.started]
    exact fun entry noted => logged_exam seats noted
  have replayable : Replayable _ start (round.seatings.filter fun _ => true) :=
    run_replayable (start_fresh seats.started named distinct) seats.run
      (logged_plain seats unpinned unreserved) known fun _ _ _ _ => short
  rwa [List.filter_true] at replayable

end

theorem seatings_all
    (seats : Seats allocator records pinned blocked slot exams round start middle honoured entries) :
    ∀ ancode, ∀ student ∈ remaining ancode start.demands,
      student ∈ studentsOf (ofExam ancode) round.seatings := by
  intro ancode student waiting
  obtain ⟨exam, member, rfl, registered⟩ := (mem_remaining_start seats).mp waiting
  exact registrant_seated seats member registered

/-- A slot that found seats for all is seated the same way if its entries are pinned in it. -/
theorem allocateSlot_again (named : (allocator.rooms.map (·.name)).Nodup)
    (distinct : (exams.map (·.ancode)).Nodup) (unreserved : allocator.params.reserveMinStudents = 0)
    (returned : allocator.allocateSlot records [] blocked slot exams = .ok round)
    (short : round.shortfalls = []) (pins : pinned.filter (·.slot = slot) = round.seatings)
    (same : ∀ block, block ∈ others ↔ block ∈ blocked) :
    ∃ again, allocator.allocateSlot records pinned others slot exams = .ok again ∧
      again.seatings = round.seatings ∧ again.shortfalls = [] ∧
      ∀ block, block ∈ again.blocked ↔ block ∈ round.blocked := by
  obtain ⟨start, middle, honoured, entries, seats⟩ := exists_seats returned
  have started := start_again same seats.started
  have old := seatings_replayable seats rfl unreserved named distinct short
  have replayable : Replayable allocator.params.longDurationThreshold { start with blocked := others }
      (pinned.filter (·.slot = slot)) := by
    rw [pins]
    exact old.unblocked others
  have all : ∀ ancode, ∀ student ∈ remaining ancode start.demands,
      student ∈ studentsOf (ofExam ancode) (pinned.filter (·.slot = slot)) := by
    rw [pins]
    exact seatings_all seats
  obtain ⟨again, allocated, replays⟩ :=
    allocateSlot_replay started (start_fresh started named distinct) unreserved replayable all
  refine ⟨again, allocated, replays.seatings.trans pins, replays.shortfalls, fun block => ?_⟩
  obtain ⟨_, _, _, _, repeated⟩ := exists_seats allocated
  rw [mem_blocked repeated named, mem_blocked seats named, replays.seatings.trans pins, same]

/-- An allocation that found seats for all is repeated if all its entries are pinned. -/
theorem allocateFrom_again (named : (allocator.rooms.map (·.name)).Nodup)
    (unreserved : allocator.params.reserveMinStudents = 0) (slots : (agenda.map (·.1)).Nodup)
    (distinct : ∀ item ∈ agenda, (item.2.map (·.ancode)).Nodup)
    (returned : allocator.allocateFrom records [] blocked agenda = .ok plan)
    (short : plan.shortfalls = [])
    (pins : ∀ item ∈ agenda, pinned.filter (·.slot = item.1) = plan.seatings.filter (·.slot = item.1))
    (same : ∀ block, block ∈ others ↔ block ∈ blocked) :
    allocator.allocateFrom records pinned others agenda = .ok plan := by
  induction agenda generalizing blocked others plan with
  | nil =>
    obtain rfl := Except.ok.inj returned
    rfl
  | cons item rest ih =>
    obtain ⟨round, first, returned⟩ := bind_ok returned
    obtain ⟨later, following, returned⟩ := bind_ok returned
    obtain rfl := pure_ok returned
    obtain ⟨none, nothing⟩ := List.append_eq_nil_iff.mp short
    rw [List.map_cons, List.nodup_cons] at slots
    rw [List.forall_mem_cons] at distinct pins
    have parted := rounds_parted first following slots.1
    obtain ⟨again, allocated, seatings, shortfalls, blocks⟩ :=
      allocateSlot_again named distinct.1 unreserved first none (pins.1.trans parted.here) same
    have others := ih slots.2 distinct.2 following nothing
      (fun other member => (pins.2 other member).trans (parted.there _ (List.mem_map_of_mem member))) blocks
    refine (ok_bind allocated).trans ((ok_bind others).trans ?_)
    rw [seatings, shortfalls, none]
    rfl

end Timetable.Proofs.RoomsAgain
