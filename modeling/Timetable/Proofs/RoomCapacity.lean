import Timetable.Proofs.SlotRounds

/-! Rooms hold no more students than they have seats. The seats a room has left and the students noted
for it stay within its seats; only reserves that are pinned with students escape the count. -/

namespace Timetable.Proofs.RoomCapacity
open SeatDemands SeatEntries SeatPool SeatingSteps SeatingPhases SlotRounds Returned

def seatedIn (name : RoomName) (entry : Seating) : Bool := !entry.reserve && entry.room = name

/-- What a room holds and what it can still take stay within its seats. -/
structure Fits (load : RoomName → Nat) (pool : Pool) : Prop where
  unused : ∀ place ∈ pool.free, load place.room.name = 0
  left : ∀ room ∈ pool.used, load room.place.room.name + room.seatsLeft ≤ room.place.room.seats
  within : ∀ place ∈ pool.places, load place.room.name ≤ place.room.seats

variable {load : RoomName → Nat} {pool after : Pool} {place : Place}

namespace Fits

theorem mono {less : RoomName → Nat} (fits : Fits load pool) (below : ∀ name, less name ≤ load name) :
    Fits less pool where
  unused place free := Nat.le_zero.mp ((below _).trans (fits.unused place free).le)
  left room used := (Nat.add_le_add_right (below _) _).trans (fits.left room used)
  within place known := (below _).trans (fits.within place known)

theorem offer (fits : Fits load pool) (offered : Offers pool place after) : Fits load after := by
  cases offered with
  | inUse => exact fits
  | opened free =>
    refine ⟨fun other remains => fits.unused other (List.mem_filter.mp remains).1, fun room used => ?_,
      fits.within⟩
    rcases List.mem_append.mp used with used | used
    · exact fits.left room used
    · rw [List.mem_singleton.mp used, fits.unused place free]
      exact (Nat.zero_add _).le

theorem take (fits : Fits load pool) (place : Place) : Fits load (pool.take place) :=
  ⟨fun other remains => fits.unused other (List.mem_filter.mp remains).1, fits.left, fits.within⟩

theorem close (fits : Fits load pool) (place : Place) : Fits load (pool.close place) where
  unused := fits.unused
  left room used := by
    obtain ⟨before, present, rfl⟩ := List.mem_map.mp used
    have left := fits.left before present
    split
    · exact (Nat.le_add_right _ _).trans left
    · exact left
  within := fits.within

theorem occupy {students : Nat} (fits : Fits load pool) (sound : Sound pool)
    (named : (pool.places.map (·.room.name)).Nodup) {room : UsedRoom} (used : room ∈ pool.used)
    (roomy : students ≤ room.seatsLeft) (sitting : Sitting) :
    Fits (fun name => load name + if name = room.place.room.name then students else 0)
      (pool.occupy room.place sitting students) where
  unused other free := by
    have apart : other.room.name ≠ room.place.room.name := by
      intro same
      have equal := Lookups.eq_of_key named (sound.free_known _ free) (sound.used_known _ used) same
      exact sound.not_used free used (congrArg Place.position equal)
    rw [if_neg apart, fits.unused other free]
  left other changed := by
    obtain ⟨before, present, rfl⟩ := List.mem_map.mp changed
    have left := fits.left before present
    split
    · rename_i same
      obtain rfl := sound.used_eq present used same
      simp only [if_true]
      omega
    · rename_i differs
      have apart : before.place.room.name ≠ room.place.room.name := by
        intro same
        have equal := Lookups.eq_of_key named (sound.used_known _ present) (sound.used_known _ used) same
        exact differs (congrArg Place.position equal)
      rw [if_neg apart]
      exact left
  within other known := by
    by_cases same : other.room.name = room.place.room.name
    · have equal := Lookups.eq_of_key named known (sound.used_known _ used) same
      have left := fits.left room used
      rw [equal, if_pos rfl]
      omega
    · rw [if_neg same]
      exact fits.within other known

theorem alone (fits : Fits load pool) (sound : Sound pool)
    (named : (pool.places.map (·.room.name)).Nodup) (free : place ∈ pool.free)
    (roomy : 0 < place.room.seats) :
    Fits (fun name => load name + if name = place.room.name then 1 else 0) (pool.take place) where
  unused other remains := by
    obtain ⟨present, differs⟩ := List.mem_filter.mp remains
    have apart : other.room.name ≠ place.room.name := by
      intro same
      have equal := Lookups.eq_of_key named (sound.free_known _ present) (sound.free_known _ free) same
      simp [equal] at differs
    rw [if_neg apart, fits.unused other present]
  left room used := by
    have apart : room.place.room.name ≠ place.room.name := by
      intro same
      have equal := Lookups.eq_of_key named (sound.used_known _ used) (sound.free_known _ free) same
      exact sound.not_used free used (congrArg Place.position equal.symm)
    rw [if_neg apart]
    exact fits.left room used
  within other known := by
    by_cases same : other.room.name = place.room.name
    · have equal := Lookups.eq_of_key named known (sound.free_known _ free) same
      rw [equal, if_pos rfl, fits.unused place free]
      omega
    · rw [if_neg same]
      exact fits.within other known

end Fits

variable {threshold : Nat} {before later : Round} {entry : Seating} {entries : List Seating}

/-- The students noted for a room, reserves apart. -/
def seated (round : Round) (name : RoomName) : Nat := (studentsOf (seatedIn name) round.seatings).length

private theorem seated_merge (plain : entry.reserve = false)
    (merged : later.seatings = Round.merge entry before.seatings) :
    seated later = fun name => seated before name + if name = entry.room then entry.students.length else 0 := by
  funext name
  rw [seated, merged, (studentsOf_merge (fun _ => rfl) plain before.seatings).length_eq, List.length_append,
    seated]
  by_cases same : entry.room = name
  · rw [studentsOf_chosen (by simp [seatedIn, plain, same]), if_pos same.symm]
  · rw [studentsOf_other (by simp [seatedIn, same]), if_neg (Ne.symm same), List.length_nil]

/-- The students a round counts for a room. Students without a seat are noted under a name too, which
is then no longer the name of a room. -/
def charged (round : Round) (name : RoomName) : Nat :=
  if name = Room.placeholder ∧ round.shortfalls ≠ [] then 0 else seated round name

theorem charged_le (round : Round) (name : RoomName) : charged round name ≤ seated round name := by
  unfold charged
  split <;> omega

private theorem charged_merge (plain : entry.reserve = false)
    (merged : later.seatings = Round.merge entry before.seatings)
    (shortfalls : later.shortfalls = before.shortfalls) (name : RoomName) :
    charged later name ≤ charged before name + if name = entry.room then entry.students.length else 0 := by
  unfold charged
  rw [shortfalls, congrFun (seated_merge plain merged) name]
  split <;> omega

private theorem charged_short (plain : entry.reserve = false) (nowhere : entry.room = Room.placeholder)
    (merged : later.seatings = Round.merge entry before.seatings) (short : later.shortfalls ≠ [])
    (name : RoomName) : charged later name ≤ charged before name := by
  by_cases same : name = Room.placeholder
  · rw [charged, if_pos ⟨same, short⟩]
    exact Nat.zero_le _
  · unfold charged
    rw [if_neg fun both => same both.1, if_neg fun both => same both.1, congrFun (seated_merge plain merged) name,
      if_neg (nowhere ▸ same), Nat.add_zero]

private theorem charged_reserve (reserved : entry.reserve = true)
    (appended : later.seatings = before.seatings ++ [entry])
    (shortfalls : later.shortfalls = before.shortfalls) (name : RoomName) :
    charged later name ≤ charged before name := by
  unfold charged seated
  rw [shortfalls, appended, studentsOf_append, studentsOf_other (by simp [seatedIn, reserved]),
    List.append_nil]

theorem Step.fits (step : Step threshold before entry later) (sound : Sound before.pool)
    (named : (before.pool.places.map (·.room.name)).Nodup) (fits : Fits (charged before) before.pool) :
    Fits (charged later) later.pool := by
  cases step with
  | @seat place pool _ _ _ offered roomy _ room plain =>
    obtain ⟨used, present, rfl⟩ := offered.exists_used
    have opened := offered.sound sound
    rw [opened.seatsLeft_used present] at roomy
    refine ((fits.offer offered).occupy opened (offered.places_eq ▸ named) present roomy _).mono ?_
    exact room ▸ charged_merge plain rfl rfl
  | @alone place _ student _ free roomy single _ room plain =>
    refine (fits.alone sound named free roomy).mono ?_
    have counted : entry.students.length = 1 := by rw [single, List.length_singleton]
    exact counted ▸ room ▸ charged_merge plain rfl rfl
  | short _ room plain => exact fits.mono (charged_short plain room rfl (by simp))
  | @echo place _ _ offered _ _ reserved =>
    exact ((fits.offer offered).close place).mono (charged_reserve reserved rfl rfl)
  | keep _ _ _ reserved => exact (fits.take _).mono (charged_reserve reserved rfl rfl)

theorem Run.fits (run : Run threshold before entries later) (sound : Sound before.pool)
    (named : (before.pool.places.map (·.room.name)).Nodup) (fits : Fits (charged before) before.pool) :
    Fits (charged later) later.pool := by
  induction run with
  | done => exact fits
  | next first _ ih =>
    exact ih (first.sound sound) (first.places_eq ▸ named) (Step.fits first sound named fits)

/-- The seats of a room in use that nobody has taken are left to give. -/
def Leaves (load : RoomName → Nat) (pool : Pool) : Prop :=
  ∀ room ∈ pool.used, room.place.room.seats ≤ load room.place.room.name + room.seatsLeft

namespace Leaves

theorem offer (leaves : Leaves load pool) (offered : Offers pool place after) : Leaves load after := by
  cases offered with
  | inUse => exact leaves
  | opened free =>
    intro room used
    rcases List.mem_append.mp used with used | used
    · exact leaves room used
    · rw [List.mem_singleton.mp used]
      exact Nat.le_add_left _ _

theorem occupy {students : Nat} (leaves : Leaves load pool) (sound : Sound pool) {room : UsedRoom}
    (used : room ∈ pool.used) (sitting : Sitting) :
    Leaves (fun name => load name + if name = room.place.room.name then students else 0)
      (pool.occupy room.place sitting students) := by
  intro changed member
  obtain ⟨before, present, rfl⟩ := List.mem_map.mp member
  have left := leaves before present
  split
  · rename_i same
    obtain rfl := sound.used_eq present used same
    simp only [if_true]
    omega
  · exact left.trans (Nat.add_le_add_right (Nat.le_add_right _ _) _)

end Leaves

theorem Step.leaves (step : Step threshold before entry later) (plain : entry.reserve = false)
    (sound : Sound before.pool) (leaves : Leaves (seated before) before.pool) :
    Leaves (seated later) later.pool := by
  have grows (room : UsedRoom) (used : room ∈ before.pool.used) :
      room.place.room.seats ≤ seated later room.place.room.name + room.seatsLeft := by
    rw [seated_merge plain (step.seatings_eq plain)]
    exact (leaves room used).trans (Nat.add_le_add_right (Nat.le_add_right _ _) _)
  cases step with
  | seat offered _ _ room =>
    obtain ⟨used, present, rfl⟩ := offered.exists_used
    rw [seated_merge plain rfl, room]
    exact (leaves.offer offered).occupy (offered.sound sound) present _
  | alone => exact grows
  | short => exact grows
  | echo _ _ _ reserved => simp [plain] at reserved
  | keep _ _ _ reserved => simp [plain] at reserved

theorem Run.leaves (run : Run threshold before entries later) (plain : ∀ entry ∈ entries, entry.reserve = false)
    (sound : Sound before.pool) (leaves : Leaves (seated before) before.pool) :
    Leaves (seated later) later.pool := by
  induction run with
  | done => exact leaves
  | next first _ ih =>
    rw [List.forall_mem_cons] at plain
    exact ih plain.2 (first.sound sound) (Step.leaves first plain.1 sound leaves)

variable {rooms : List Room} {overrides : Table RoomOverride} {allocator : Allocator}
  {records : List Accommodation} {pinned : List Seating} {blocked : List Block} {slot : Slot}
  {exams : List Exam} {agenda : Agenda Exam} {plan : RoomPlan} {round : Round} {room : Room}

def inRoom (slot : Slot) (name : RoomName) (entry : Seating) : Bool := entry.slot = slot && entry.room = name

def openIn (slot : Slot) (name : RoomName) (entry : Seating) : Bool := !entry.reserve && inRoom slot name entry

/-- Reserves that are pinned for a room in a slot, and for an exam of it. -/
def pinnedReserve (agenda : Agenda Exam) (slot : Slot) (name : RoomName) (pin : Seating) : Bool :=
  pin.reserve && inRoom slot name pin &&
    agenda.any fun (other, exams) => other = slot && exams.any (·.ancode = pin.ancode)

private theorem studentsOf_split (kind part : Seating → Bool) (entries : List Seating) :
    (studentsOf kind entries).length = (studentsOf (fun entry => !part entry && kind entry) entries).length
      + (studentsOf (fun entry => part entry && kind entry) entries).length := by
  induction entries with
  | nil => rfl
  | cons entry entries ih =>
    rw [studentsOf_cons, studentsOf_cons entry entries, studentsOf_cons entry entries]
    simp only [List.length_append, ih]
    cases chosen : kind entry <;> cases inside : part entry <;>
      simp [studentsOf, chosen, inside] <;> omega

section
variable {start middle : Round} {honoured : List Seating}
  (seats : Seats allocator records pinned blocked slot exams round start middle honoured entries)
  (named : (allocator.rooms.map (·.name)).Nodup)
include seats named

private theorem round_fits : Fits (charged round) round.pool := by
  obtain ⟨-, seatings, -, -⟩ := start_empty seats.started
  have none (name : RoomName) : charged start name = 0 := by
    have below := charged_le start name
    rw [seated, seatings] at below
    exact Nat.le_zero.mp below
  refine Run.fits seats.run (start_sound seats.started) ?_ ⟨?_, ?_, ?_⟩
  · exact start_named seats.started named
  · exact fun place _ => none place.room.name
  · rw [start_pool seats.started]
    intro room used
    cases used
  · exact fun place _ => (none place.room.name).le.trans (Nat.zero_le _)

private theorem open_le (member : room ∈ allocator.rooms) (real : room.name ≠ Room.placeholder) :
    (studentsOf (seatedIn room.name) round.seatings).length ≤ room.seats := by
  rw [← ofRooms_rooms allocator.rooms] at member
  obtain ⟨place, known, rfl⟩ := List.mem_map.mp member
  have places : round.pool.places = Place.ofRooms allocator.rooms :=
    seats.run.places_eq.trans (start_places seats.started)
  have within := (round_fits seats named).within place (places ▸ known)
  rwa [charged, if_neg fun both => real both.1] at within

private theorem closed_empty (known : place ∈ start.pool.places) (closed : ¬ Holds start.pool place)
    (real : place.room.name ≠ Room.placeholder) :
    studentsOf (·.room = place.room.name) round.seatings = [] := by
  have sound := start_sound seats.started
  refine studentsOf_none fun entry member here => ?_
  obtain ⟨logged, noted, same⟩ := seats.exists_logged member
  have room : logged.room = place.room.name :=
    (congrArg Seating.room same).trans (of_decide_eq_true here)
  rcases seats.run.housed sound logged noted with ⟨other, held, name⟩ | ⟨nowhere, -⟩
  · have available := held.known sound
    have distinct := start_named seats.started named
    rw [Lookups.eq_of_key distinct available known (name.symm.trans room)] at held
    exact absurd held closed
  · exact absurd (room.symm.trans nowhere) real

/-- Either nobody may use a room, or its pinned reserves come on top of those who sit in it. -/
theorem load_cases (member : room ∈ allocator.rooms) (real : room.name ≠ Room.placeholder) :
    studentsOf (·.room = room.name) round.seatings = [] ∨
      (studentsOf (·.room = room.name) round.seatings).length
        = (studentsOf (seatedIn room.name) round.seatings).length
          + (studentsOf (fun pin => reserveIn room.name pin && exams.any (·.ancode = pin.ancode))
              (pinned.filter (·.slot = slot))).length := by
  rw [← ofRooms_rooms allocator.rooms, ← start_places seats.started] at member
  obtain ⟨place, known, rfl⟩ := List.mem_map.mp member
  by_cases held : Holds start.pool place
  · right
    have distinct := start_named seats.started named
    have pins : studentsOf (reserveIn place.room.name) honoured
        = studentsOf (fun pin => reserveIn place.room.name pin && exams.any (·.ancode = pin.ancode))
            (pinned.filter (·.slot = slot)) := by
      rw [studentsOf, seats.honours.reserves distinct place known held, start_exams seats.started]
      rfl
    have others : studentsOf (reserveIn place.room.name) entries = [] := by
      refine studentsOf_none fun entry noted reserved => ?_
      simp only [reserveIn, Bool.and_eq_true] at reserved
      exact (seats.fills.reserves entry noted reserved.1).1
    have listed : (studentsOf (reserveIn place.room.name) round.seatings).length = _ :=
      (seats.students fun _ => rfl).length_eq
    rw [pins, others, List.append_nil] at listed
    rw [studentsOf_split (·.room = place.room.name) (·.reserve), ← listed]
    rfl
  · exact .inl (closed_empty seats named known held real)

end

private theorem inRoom_slot (name : RoomName) (entry : Seating) :
    inRoom slot name entry = (decide (entry.room = name) && decide (entry.slot = slot)) :=
  Bool.and_comm _ _

private theorem openIn_slot (name : RoomName) (entry : Seating) :
    openIn slot name entry = (seatedIn name entry && decide (entry.slot = slot)) := by
  rw [openIn, inRoom_slot, seatedIn, Bool.and_assoc]

private theorem pinnedReserve_slot (slots : (agenda.map (·.1)).Nodup) (member : (slot, exams) ∈ agenda)
    (name : RoomName) (pin : Seating) :
    pinnedReserve agenda slot name pin
      = (reserveIn name pin && exams.any (·.ancode = pin.ancode) && decide (pin.slot = slot)) := by
  have sits : (agenda.any fun (other, exams) => other = slot && exams.any (·.ancode = pin.ancode))
      = exams.any (·.ancode = pin.ancode) := by
    rw [Bool.eq_iff_iff, List.any_eq_true]
    constructor
    · rintro ⟨item, present, sits⟩
      simp only [Bool.and_eq_true, decide_eq_true_eq] at sits
      rw [Lookups.eq_of_key slots present member sits.1] at sits
      exact sits.2
    · exact fun sits => ⟨_, member, by simpa using sits⟩
  rw [pinnedReserve, sits, inRoom_slot, reserveIn]
  cases pin.reserve <;> cases decide (pin.room = name) <;> simp [Bool.and_comm]

/-- Rooms hold no more students than they have seats, reserves apart. With them a room that is used at
all holds too many just when the students of its pinned reserves do not fit in as well. -/
theorem rooms_hold_their_seats {config : Config} (named : (rooms.map (·.name)).Nodup)
    (slots : (agenda.map (·.1)).Nodup)
    (returned : (Allocator.ofConfig rooms config).allocate agenda records pinned = .ok plan)
    (member : room ∈ Allocator.inventory rooms config.roomOverrides)
    (real : room.name ≠ Room.placeholder) (slot : Slot) :
    (studentsOf (openIn slot room.name) plan.seatings).length ≤ room.seats ∧
      ((studentsOf (inRoom slot room.name) plan.seatings).length ≤ room.seats ↔
        studentsOf (inRoom slot room.name) plan.seatings = [] ∨
          (studentsOf (openIn slot room.name) plan.seatings).length
            + (studentsOf (pinnedReserve agenda slot room.name) pinned).length ≤ room.seats) := by
  have distinct := ofConfig_named named config
  rw [studentsOf_slot (inRoom_slot room.name), studentsOf_slot (openIn_slot room.name)]
  by_cases listed : slot ∈ agenda.map (·.1)
  · obtain ⟨⟨_, exams⟩, present, rfl⟩ := List.mem_map.mp listed
    obtain ⟨blocked, round, allocated, entries, -⟩ := exists_round slots returned present
    obtain ⟨_, _, _, _, seats⟩ := exists_seats allocated
    have within := open_le seats distinct member real
    rw [entries, studentsOf_slot (pinnedReserve_slot slots present room.name)]
    refine ⟨within, ?_⟩
    rcases load_cases seats distinct member real with none | load
    · simp [none]
    · rw [← load]
      refine ⟨.inr, ?_⟩
      rintro (none | below)
      · simp [none]
      · exact below
  · have none : plan.seatings.filter (·.slot = slot) = [] := by
      rw [List.filter_eq_nil_iff]
      intro entry present here
      exact listed (of_decide_eq_true here ▸ (plan_slots returned).1 entry present)
    simp [none]

def oneSeat : Room :=
  { name := "R1", seats := 1, lab := false, restrictedSoftware := false, sockets := false,
    accessible := false }

def oneExam : Exam :=
  { ancode := 1, title := "", examiner := "prof", duration := 90, category := .regular,
    registrations := [⟨"IF", ["a"]⟩], constraints := {} }

def fullReserve : Seating :=
  { slot := ⟨1, 1⟩, room := "R1", ancode := 1, duration := 90, students := ["b", "c"],
    accommodated := false, reserve := true }

theorem one_seat_with_full_reserve :
    ∃ plan, (Allocator.ofConfig [oneSeat] {}).allocate [(⟨1, 1⟩, [oneExam])] [] [fullReserve] = .ok plan ∧
      (studentsOf (openIn ⟨1, 1⟩ "R1") plan.seatings).length ≤ 1 ∧
        ((studentsOf (inRoom ⟨1, 1⟩ "R1") plan.seatings).length ≤ 1 ↔
          studentsOf (inRoom ⟨1, 1⟩ "R1") plan.seatings = [] ∨
            (studentsOf (openIn ⟨1, 1⟩ "R1") plan.seatings).length
              + (studentsOf (pinnedReserve [(⟨1, 1⟩, [oneExam])] ⟨1, 1⟩ "R1") [fullReserve]).length ≤ 1) := by
  have named : ([oneSeat].map (·.name)).Nodup := by decide
  have slots : ([((⟨1, 1⟩ : Slot), [oneExam])].map (·.1)).Nodup := by decide
  have member : oneSeat ∈ Allocator.inventory [oneSeat] ({} : Config).roomOverrides := List.mem_cons_self
  obtain ⟨plan, returned⟩ : ∃ plan,
      (Allocator.ofConfig [oneSeat] {}).allocate [(⟨1, 1⟩, [oneExam])] [] [fullReserve] = .ok plan :=
    ⟨_, rfl⟩
  exact ⟨plan, returned, rooms_hold_their_seats named slots returned member (by decide) ⟨1, 1⟩⟩

theorem full_reserve_overfills :
    ∃ plan, (Allocator.ofConfig [oneSeat] {}).allocate [(⟨1, 1⟩, [oneExam])] [] [fullReserve] = .ok plan ∧
      oneSeat.seats < (studentsOf (inRoom ⟨1, 1⟩ "R1") plan.seatings).length :=
  ⟨_, rfl, by decide⟩

end Timetable.Proofs.RoomCapacity
