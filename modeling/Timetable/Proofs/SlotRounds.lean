import Timetable.Proofs.SeatingPhases

/-! The rounds of an agenda. Each slot is one run from an empty round, and a plan holds its entries
and no others of that slot. Blocks are handed from slot to slot, so an induction on the agenda is for all of
them at once. -/

namespace Timetable.Proofs.SlotRounds
open SeatDemands SeatEntries SeatPool SeatingSteps SeatingPhases Returned

variable {allocator : Allocator} {records : List Accommodation} {pinned : List Seating}
  {blocked : List Block} {slot : Slot} {exams : List Exam} {start round : Round} {agenda : Agenda Exam}
  {plan : RoomPlan} {threshold : Nat} {before after : Round} {entry : Seating} {entries : List Seating}

theorem start_pool (started : allocator.start records blocked slot exams = .ok start) :
    start.pool = .ofPlaces (Place.ofRooms allocator.rooms) fun place =>
      !allocator.unavailable.contains (place.position, slot) &&
        !blocked.contains (place.position, slot) := by
  obtain ⟨demands, -, started⟩ := bind_ok started
  rw [← pure_ok started]

theorem start_sound (started : allocator.start records blocked slot exams = .ok start) :
    Sound start.pool :=
  start_pool started ▸ sound_ofPlaces (ofRooms_distinct _) _

theorem start_places (started : allocator.start records blocked slot exams = .ok start) :
    start.pool.places = Place.ofRooms allocator.rooms :=
  start_pool started ▸ rfl

theorem start_empty (started : allocator.start records blocked slot exams = .ok start) :
    start.slot = slot ∧ start.seatings = [] ∧ start.shortfalls = [] ∧ start.blocked = blocked := by
  obtain ⟨demands, -, started⟩ := bind_ok started
  rw [← pure_ok started]
  exact ⟨rfl, rfl, rfl, rfl⟩

theorem start_pending (started : allocator.start records blocked slot exams = .ok start) :
    ∀ demand ∈ start.demands, (pending demand).Perm demand.exam.registrants := by
  obtain ⟨demands, listed, started⟩ := bind_ok started
  rw [← pure_ok started]
  intro demand member
  obtain ⟨exam, -, returned⟩ := exists_item listed member
  obtain ⟨rfl, students⟩ := pending_ofExam returned
  exact students

theorem start_normal {demand : Demand} (started : allocator.start records blocked slot exams = .ok start)
    (member : demand ∈ start.demands) :
    demand.normal = demand.exam.registrants.filter fun student => Grant.of records student = .nothing := by
  obtain ⟨demands, listed, started⟩ := bind_ok started
  rw [← pure_ok started] at member
  obtain ⟨exam, -, returned⟩ := exists_item listed member
  obtain ⟨extended, -, returned⟩ := bind_ok returned
  obtain ⟨alone, -, returned⟩ := bind_ok returned
  rw [← pure_ok returned]

private theorem mapM_exams {demands : List Demand} (listed : exams.mapM (Demand.ofExam records) = .ok demands) :
    demands.map (·.exam) = exams := by
  have matched := mapM_ok_iff.mp listed
  clear listed
  induction matched with
  | nil => rfl
  | cons first _ ih => rw [List.map_cons, (pending_ofExam first).1, ih]

theorem start_exams (started : allocator.start records blocked slot exams = .ok start) :
    start.demands.map (·.exam) = exams := by
  obtain ⟨demands, listed, started⟩ := bind_ok started
  rw [← pure_ok started]
  exact mapM_exams listed

/-- A slot of a plan as a run for its pins and a run for all others. -/
structure Seats (allocator : Allocator) (records : List Accommodation) (pinned : List Seating)
    (blocked : List Block) (slot : Slot) (exams : List Exam) (round : Round) (start middle : Round)
    (honoured entries : List Seating) : Prop where
  started : allocator.start records blocked slot exams = .ok start
  first : Run allocator.params.longDurationThreshold start honoured middle
  honours : Honours (pinned.filter (·.slot = slot)) start honoured middle
  second : Run allocator.params.longDurationThreshold middle entries round
  fills : Fills allocator.params.reserveMinStudents middle.demands entries

theorem exists_seats (returned : allocator.allocateSlot records pinned blocked slot exams = .ok round) :
    ∃ start middle honoured entries,
      Seats allocator records pinned blocked slot exams round start middle honoured entries := by
  obtain ⟨start, started, -⟩ := bind_ok returned
  obtain ⟨honoured, middle, entries, -, first, honours, second, fills⟩ :=
    allocateSlot_run started (start_sound started) (start_empty started).1 returned
  exact ⟨start, middle, honoured, entries, started, first, honours, second, fills⟩

namespace Seats

variable {middle : Round} {honoured : List Seating}
  (seats : Seats allocator records pinned blocked slot exams round start middle honoured entries)
include seats

theorem run : Run allocator.params.longDurationThreshold start (honoured ++ entries) round :=
  seats.first.append seats.second

theorem round_slot : round.slot = slot :=
  seats.run.slot_eq.trans (start_empty seats.started).1

theorem keys {other : Seating} :
    other ∈ round.seatings.map key ↔ other ∈ (honoured ++ entries).map key := by
  rw [seats.run.mem_keys, (start_empty seats.started).2.1]
  simp

theorem exists_logged (member : entry ∈ round.seatings) :
    ∃ logged ∈ honoured ++ entries, key logged = key entry :=
  List.mem_map.mp (seats.keys.mp (List.mem_map_of_mem member))

theorem students {kind : Seating → Bool} (blind : ∀ entry, kind (key entry) = kind entry) :
    (studentsOf kind round.seatings).Perm (studentsOf kind honoured ++ studentsOf kind entries) := by
  have listed := seats.run.students blind
  rwa [(start_empty seats.started).2.1, studentsOf_nil, List.nil_append, studentsOf_append] at listed

theorem seating_slots : ∀ entry ∈ round.seatings, entry.slot = slot := by
  intro entry member
  obtain ⟨logged, noted, same⟩ := seats.exists_logged member
  calc entry.slot
    _ = (key entry).slot := rfl
    _ = logged.slot := by rw [← same]; rfl
    _ = slot := (seats.run.entry_slot logged noted).trans (start_empty seats.started).1

theorem shortfall_slots : ∀ shortfall ∈ round.shortfalls, shortfall.slot = slot := by
  have kept := seats.run.preserves
    (fun round => ∀ shortfall ∈ round.shortfalls, shortfall.slot = round.slot) Step.shortfall_slots
    (by simp [(start_empty seats.started).2.2.1])
  exact seats.round_slot ▸ kept

end Seats

theorem plan_slots (returned : allocator.allocateFrom records pinned blocked agenda = .ok plan) :
    (∀ entry ∈ plan.seatings, entry.slot ∈ agenda.map (·.1)) ∧
      ∀ shortfall ∈ plan.shortfalls, shortfall.slot ∈ agenda.map (·.1) := by
  induction agenda generalizing blocked plan with
  | nil =>
    obtain rfl := Except.ok.inj returned
    simp
  | cons item rest ih =>
    obtain ⟨round, first, returned⟩ := bind_ok returned
    obtain ⟨later, others, returned⟩ := bind_ok returned
    obtain rfl := pure_ok returned
    obtain ⟨_, _, _, _, seats⟩ := exists_seats first
    obtain ⟨seatings, shortfalls⟩ := ih others
    constructor
    · intro entry member
      rcases List.mem_append.mp member with member | member
      · exact seats.seating_slots entry member ▸ List.mem_cons_self
      · exact List.mem_cons_of_mem _ (seatings entry member)
    · intro shortfall member
      rcases List.mem_append.mp member with member | member
      · exact seats.shortfall_slots shortfall member ▸ List.mem_cons_self
      · exact List.mem_cons_of_mem _ (shortfalls shortfall member)

theorem filter_front {α : Type} {p : α → Bool} {front back : List α} (all : ∀ item ∈ front, p item)
    (none : ∀ item ∈ back, ¬ p item) : (front ++ back).filter p = front := by
  rw [List.filter_append, List.filter_eq_self.mpr all, List.filter_eq_nil_iff.mpr none, List.append_nil]

theorem filter_back {α : Type} {p : α → Bool} {front : List α} (none : ∀ item ∈ front, ¬ p item)
    (back : List α) : (front ++ back).filter p = back.filter p := by
  rw [List.filter_append, List.filter_eq_nil_iff.mpr none, List.nil_append]

/-- A plan holds of its first slot what the round of it holds, and of later slots what the rest holds. -/
structure Parted (slot : Slot) (later : List Slot) (round : Round) (rest : RoomPlan) : Prop where
  here : (round.seatings ++ rest.seatings).filter (·.slot = slot) = round.seatings
  missing : (round.shortfalls ++ rest.shortfalls).filter (·.slot = slot) = round.shortfalls
  there : ∀ other ∈ later,
    (round.seatings ++ rest.seatings).filter (·.slot = other) = rest.seatings.filter (·.slot = other)
  elsewhere : ∀ other ∈ later,
    (round.shortfalls ++ rest.shortfalls).filter (·.slot = other) = rest.shortfalls.filter (·.slot = other)

theorem rounds_parted {later : RoomPlan} {others : List Block}
    (first : allocator.allocateSlot records pinned blocked slot exams = .ok round)
    (following : allocator.allocateFrom records pinned others agenda = .ok later)
    (apart : slot ∉ agenda.map (·.1)) : Parted slot (agenda.map (·.1)) round later := by
  obtain ⟨_, _, _, _, seats⟩ := exists_seats first
  obtain ⟨seatings, shortfalls⟩ := plan_slots following
  refine ⟨filter_front ?_ ?_, filter_front ?_ ?_, fun other listed => filter_back ?_ _,
    fun other listed => filter_back ?_ _⟩
  · simpa using seats.seating_slots
  · intro entry inside same
    exact apart (of_decide_eq_true same ▸ seatings entry inside)
  · simpa using seats.shortfall_slots
  · intro shortfall inside same
    exact apart (of_decide_eq_true same ▸ shortfalls shortfall inside)
  · intro entry inside same
    exact apart ((seats.seating_slots entry inside).symm.trans (of_decide_eq_true same) ▸ listed)
  · intro shortfall inside same
    exact apart ((seats.shortfall_slots shortfall inside).symm.trans (of_decide_eq_true same) ▸ listed)

/-- Each slot of an agenda has its round, and the plan holds of it what the round holds. -/
theorem exists_round (distinct : (agenda.map (·.1)).Nodup)
    (returned : allocator.allocateFrom records pinned blocked agenda = .ok plan)
    (member : (slot, exams) ∈ agenda) :
    ∃ blocked round, allocator.allocateSlot records pinned blocked slot exams = .ok round ∧
      plan.seatings.filter (·.slot = slot) = round.seatings ∧
      plan.shortfalls.filter (·.slot = slot) = round.shortfalls := by
  induction agenda generalizing blocked plan with
  | nil => cases member
  | cons item rest ih =>
    obtain ⟨round, first, returned⟩ := bind_ok returned
    obtain ⟨later, others, returned⟩ := bind_ok returned
    obtain rfl := pure_ok returned
    rw [List.map_cons, List.nodup_cons] at distinct
    have parted := rounds_parted first others distinct.1
    rcases List.mem_cons.mp member with rfl | member
    · exact ⟨blocked, round, first, parted.here, parted.missing⟩
    · obtain ⟨blocked, final, allocated, entries, missing⟩ := ih distinct.2 others member
      have listed : slot ∈ rest.map (·.1) := List.mem_map_of_mem member
      exact ⟨blocked, final, allocated, (parted.there slot listed).trans entries,
        (parted.elsewhere slot listed).trans missing⟩

/-- An entry of a plan stands in the round of its slot. -/
theorem entry_round (distinct : (agenda.map (·.1)).Nodup)
    (returned : allocator.allocateFrom records pinned blocked agenda = .ok plan) (member : entry ∈ plan.seatings) :
    ∃ exams blocked round, (entry.slot, exams) ∈ agenda ∧
      allocator.allocateSlot records pinned blocked entry.slot exams = .ok round ∧
      plan.seatings.filter (·.slot = entry.slot) = round.seatings ∧ entry ∈ round.seatings := by
  obtain ⟨⟨slot, exams⟩, present, here⟩ := List.mem_map.mp ((plan_slots returned).1 entry member)
  obtain rfl : slot = entry.slot := here
  obtain ⟨blocked, round, allocated, entries, -⟩ := exists_round distinct returned present
  refine ⟨exams, blocked, round, present, allocated, entries, ?_⟩
  rw [← entries]
  exact List.mem_filter.mpr ⟨member, decide_eq_true rfl⟩

/-- Overrides change seats and the order of rooms, and no names. -/
theorem inventory_names (rooms : List Room) (overrides : Table RoomOverride) :
    ((Allocator.inventory rooms overrides).map (·.name)).Perm (rooms.map (·.name)) := by
  refine ((Ordering.stableSort_perm _).map _).trans (.of_eq ?_)
  rw [List.map_map]
  apply List.map_congr_left
  intro room _
  simp only [Function.comp_apply]
  split <;> rfl

/-- The order of the inventory: more seats first, then by name. -/
theorem linear_inventory : Ordering.Linear fun a b : Nat × RoomName => b.1 < a.1 || (a.1 = b.1 && a.2 ≤ b.2) where
  total a b := by
    simp only [Bool.or_eq_true, Bool.and_eq_true, decide_eq_true_eq]
    rcases Nat.lt_trichotomy a.1 b.1 with less | equal | more
    · exact .inr (.inl less)
    · exact (String.le_total a.2 b.2).imp (fun names => .inr ⟨equal, names⟩) (fun names => .inr ⟨equal.symm, names⟩)
    · exact .inl (.inl more)
  trans a b c := by
    simp only [Bool.or_eq_true, Bool.and_eq_true, decide_eq_true_eq]
    rintro (more | ⟨equal, names⟩) (again | ⟨alike, further⟩)
    · exact .inl (by omega)
    · exact .inl (by omega)
    · exact .inl (by omega)
    · exact .inr ⟨equal.trans alike, String.le_trans names further⟩
  antisymm a b := by
    simp only [Bool.or_eq_true, Bool.and_eq_true, decide_eq_true_eq]
    rintro (more | ⟨equal, names⟩) (again | ⟨alike, further⟩)
    · omega
    · omega
    · omega
    · exact Prod.ext equal (String.le_antisymm names further)

/-- The greatest room comes first. -/
theorem inventory_descending (rooms : List Room) (overrides : Table RoomOverride) :
    (Allocator.inventory rooms overrides).Pairwise fun a b => b.seats ≤ a.seats := by
  refine (Ordering.stableSort_keys_pairwise linear_inventory (fun room : Room => (room.seats, room.name)) _).imp ?_
  intro a b ahead
  simp only [Bool.or_eq_true, Bool.and_eq_true, decide_eq_true_eq] at ahead
  omega

theorem exists_place_iff {rooms : List Room} {overrides : Table RoomOverride} {name : RoomName} :
    (∃ place ∈ Place.ofRooms (Allocator.inventory rooms overrides), place.room.name = name) ↔
      ∃ room ∈ rooms, room.name = name := by
  rw [← List.mem_map, ← List.mem_map, ← (inventory_names rooms overrides).mem_iff]
  rw [← ofRooms_rooms (Allocator.inventory rooms overrides), List.map_map, ofRooms_rooms]
  rfl

theorem ofConfig_named {rooms : List Room} (named : (rooms.map (·.name)).Nodup) (config : Config) :
    ((Allocator.ofConfig rooms config).rooms.map (·.name)).Nodup :=
  (inventory_names rooms config.roomOverrides).nodup_iff.mpr named

theorem ofConfig_real {rooms : List Room} (real : ∀ room ∈ rooms, room.name ≠ Room.placeholder) (config : Config) :
    ∀ room ∈ (Allocator.ofConfig rooms config).rooms, room.name ≠ Room.placeholder := by
  intro room member
  have listed := (inventory_names rooms config.roomOverrides).mem_iff.mp (List.mem_map_of_mem member)
  obtain ⟨other, present, same⟩ := List.mem_map.mp listed
  exact same ▸ real other present

theorem start_named (started : allocator.start records blocked slot exams = .ok start)
    (named : (allocator.rooms.map (·.name)).Nodup) :
    (start.pool.places.map (·.room.name)).Nodup := by
  rw [← ofRooms_rooms allocator.rooms, List.map_map, ← start_places started] at named
  exact named

theorem studentsOf_slot {kind part : Seating → Bool}
    (same : ∀ entry, kind entry = (part entry && decide (entry.slot = slot))) (entries : List Seating) :
    studentsOf kind entries = studentsOf part (entries.filter (·.slot = slot)) := by
  rw [studentsOf, studentsOf, List.filter_filter, List.filter_congr fun entry _ => same entry]

end Timetable.Proofs.SlotRounds
