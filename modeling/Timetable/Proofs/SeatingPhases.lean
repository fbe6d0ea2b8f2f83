import Timetable.Proofs.SeatingSteps

/-! The phases of a slot as runs. Pins take students out of the demands, normal students leave them
room by room, and the accommodated ones are seated one at a time. -/

namespace Timetable.Proofs.SeatingPhases
open SeatDemands SeatEntries SeatPool SeatingSteps Returned

variable {threshold : Nat} {before middle after : Round} {entries later : List Seating} {pin : Seating}
  {demand : Demand} {index : Nat}

theorem seat_ok {round : Round} {place : Place} {sitting : Sitting} {students : List StudentId}
    {accommodated : Bool}
    (returned : round.seat threshold place sitting students accommodated = .ok after) :
    ∃ blocked, Blocks threshold place ⟨round.slot, place.room.name, sitting.ancode, sitting.duration,
        students, accommodated, false⟩ round.blocked blocked ∧
      after = { round with
        blocked
        seatings := Round.merge ⟨round.slot, place.room.name, sitting.ancode, sitting.duration, students,
          accommodated, false⟩ round.seatings } := by
  by_cases long : accommodated ∧ threshold < sitting.duration
  · simp only [Round.seat, if_pos long] at returned
    obtain ⟨next, neighbour, returned⟩ := bind_ok returned
    exact ⟨_, by rw [Blocks, if_pos long]; exact ⟨next, neighbour, rfl⟩, (pure_ok returned).symm⟩
  · simp only [Round.seat, if_neg long] at returned
    exact ⟨_, by rw [Blocks, if_neg long], (pure_ok returned).symm⟩

/-- Seating only fails where the room would be blocked for a slot beyond all numbers. -/
theorem exists_seat {round : Round} {place : Place} {sitting : Sitting} {students : List StudentId}
    {accommodated : Bool}
    (next : accommodated ∧ threshold < sitting.duration → ∃ next, round.slot.next = .ok next) :
    ∃ after, round.seat threshold place sitting students accommodated = .ok after := by
  by_cases long : accommodated ∧ threshold < sitting.duration
  · obtain ⟨next, found⟩ := next long
    simp only [Round.seat, if_pos long, found]
    exact ⟨_, rfl⟩
  · simp only [Round.seat, if_neg long]
    exact ⟨_, rfl⟩

theorem seat_step {place : Place} {pool : Pool} {demands : List Demand} {sitting : Sitting}
    {students : List StudentId} {count : Nat} {accommodated : Bool}
    (offered : Offers before.pool place pool) (counted : students.length = count)
    (fits : count ≤ pool.seatsLeft place)
    (returned : Round.seat { before with demands, pool := pool.occupy place sitting count } threshold place
      sitting students accommodated = .ok after) :
    Step threshold before ⟨before.slot, place.room.name, sitting.ancode, sitting.duration, students,
      accommodated, false⟩ after ∧ after.demands = demands ∧ after.shortfalls = before.shortfalls ∧
      ∀ other, Holds after.pool other ↔ Holds pool other := by
  subst counted
  obtain ⟨blocked, blocks, rfl⟩ := seat_ok returned
  exact ⟨.seat offered fits rfl rfl rfl blocks, rfl, rfl, fun _ => holds_occupy⟩

def reserveIn (name : RoomName) (entry : Seating) : Bool := entry.reserve && entry.room = name

structure Honours (pins : List Seating) (before : Round) (entries : List Seating) (after : Round) :
    Prop where
  exams : after.demands.map (·.exam) = before.demands.map (·.exam)
  holds : ∀ place, Holds after.pool place ↔ Holds before.pool place
  covered : ∀ ancode, ∀ student ∈ remaining ancode before.demands,
    student ∈ remaining ancode after.demands ∨ student ∈ studentsOf (ofExam ancode) entries
  left : ∀ ancode, ∀ student ∈ remaining ancode after.demands, student ∈ remaining ancode before.demands
  pinned : ∀ entry ∈ entries, (∃ exam ∈ before.demands.map (·.exam), exam.ancode = entry.ancode) ∧
    ∃ pin ∈ pins, key entry = key pin ∧ ∀ student ∈ entry.students,
      student ∈ pin.students ∨ student ∈ remaining entry.ancode before.demands
  /-- The pinned reserves of a room that can be had are all noted as they are. -/
  reserves : (before.pool.places.map (·.room.name)).Nodup → ∀ place ∈ before.pool.places,
    Holds before.pool place → entries.filter (reserveIn place.room.name)
      = pins.filter fun pin => reserveIn place.room.name pin &&
        (before.demands.map (·.exam)).any (·.ancode = pin.ancode)

namespace Honours

theorem nothing {pins : List Seating} (round : Round)
    (unheld : ∀ place ∈ round.pool.places, (round.pool.places.map (·.room.name)).Nodup →
      Holds round.pool place → ∀ pin ∈ pins, pin.room = place.room.name →
        ∀ exam ∈ round.demands.map (·.exam), exam.ancode ≠ pin.ancode) :
    Honours pins round [] round where
  exams := rfl
  holds _ := .rfl
  covered _ _ present := .inl present
  left _ _ present := present
  pinned _ none := by cases none
  reserves named place known held := by
    rw [List.filter_nil, eq_comm, List.filter_eq_nil_iff]
    intro pin member chosen
    simp only [reserveIn, Bool.and_eq_true, decide_eq_true_eq, List.any_eq_true] at chosen
    obtain ⟨⟨-, here⟩, exam, listed, same⟩ := chosen
    exact unheld place known named held pin member here exam listed same

theorem append {pins others : List Seating} (first : Honours pins before entries middle)
    (second : Honours others middle later after)
    (places : middle.pool.places = before.pool.places) :
    Honours (pins ++ others) before (entries ++ later) after where
  exams := second.exams.trans first.exams
  holds place := (second.holds place).trans (first.holds place)
  covered ancode student present := by
    rw [studentsOf_append, List.mem_append]
    rcases first.covered ancode student present with present | seated
    · exact (second.covered ancode student present).imp_right .inr
    · exact .inr (.inl seated)
  left ancode student present := first.left ancode student (second.left ancode student present)
  pinned entry member := by
    rcases List.mem_append.mp member with member | member
    · obtain ⟨listed, pin, inside, same, allowed⟩ := first.pinned entry member
      exact ⟨listed, pin, List.mem_append_left _ inside, same, allowed⟩
    · obtain ⟨listed, pin, inside, same, allowed⟩ := second.pinned entry member
      exact ⟨first.exams ▸ listed, pin, List.mem_append_right _ inside, same, fun student seated =>
        (allowed student seated).imp_right (first.left _ student)⟩
  reserves named place known held := by
    rw [List.filter_append, List.filter_append, first.reserves named place known held,
      second.reserves (places ▸ named) place (places ▸ known) ((first.holds place).mpr held),
      first.exams]

end Honours

/-- The students a pin seats in a room with so many seats left, and what is left of the demand. -/
def drawn (demand : Demand) (pin : Seating) (seats : Nat) : List StudentId × Demand :=
  if pin.students.isEmpty && !pin.accommodated then
    (demand.firstNormal seats, demand.dropNormal seats)
  else (pin.students.take seats, demand.without (pin.students.take seats))

theorem drawn_spec (demand : Demand) (pin : Seating) (seats : Nat) :
    (drawn demand pin seats).2.exam = demand.exam ∧ (drawn demand pin seats).1.length ≤ seats ∧
      (∀ student ∈ pending demand,
        student ∈ pending (drawn demand pin seats).2 ∨ student ∈ (drawn demand pin seats).1) ∧
      (∀ student ∈ pending (drawn demand pin seats).2, student ∈ pending demand) ∧
      ∀ student ∈ (drawn demand pin seats).1, student ∈ pin.students ∨ student ∈ pending demand := by
  unfold drawn
  split
  · rw [pending_drop demand seats]
    refine ⟨rfl, List.length_take_le _ _, ?_, ?_, ?_⟩
    · exact fun student present => (List.mem_append.mp present).symm
    · exact fun student present => List.mem_append_right _ present
    · exact fun student present => .inr (List.mem_append_left _ present)
  · refine ⟨rfl, List.length_take_le _ _, ?_, ?_, ?_⟩
    · intro student present
      by_cases seated : student ∈ pin.students.take seats
      · exact .inr seated
      · exact .inl ((mem_pending_without _ _).mpr ⟨present, seated⟩)
    · exact fun student present => ((mem_pending_without _ _).mp present).1
    · exact fun student present => .inl (List.mem_of_mem_take present)

theorem pinStudents_eq (round : Round) (place : Place) :
    round.pinStudents threshold index demand place pin =
      Round.seat { round with
        demands := round.demands.set index (drawn demand pin (round.pool.seatsLeft place)).2
        pool := round.pool.occupy place ⟨pin.ancode, pin.duration⟩
          (drawn demand pin (round.pool.seatsLeft place)).1.length }
        threshold place ⟨pin.ancode, pin.duration⟩ (drawn demand pin (round.pool.seatsLeft place)).1
        pin.accommodated := rfl

section
variable {place : Place} {pool : Pool} (present : before.demands[index]? = some demand)
  (exam : demand.exam.ancode = pin.ancode) (here : pin.slot = before.slot)
  (name : place.room.name = pin.room) (sound : Sound before.pool) (offered : Offers before.pool place pool)
include present exam here name sound offered

private theorem pinReserve_run (reserved : pin.reserve = true) :
    Run threshold before [pin] (Round.pinReserve { before with pool } place pin) ∧
      Honours [pin] before [pin] (Round.pinReserve { before with pool } place pin) := by
  have listed : demand.exam ∈ before.demands.map (·.exam) :=
    List.mem_map_of_mem (List.mem_of_getElem? present)
  refine ⟨.single (.echo offered here name.symm reserved), rfl,
    fun _ => holds_close.trans (offered.holds_iff sound), fun _ _ => .inl, fun _ _ => id, ?_, ?_⟩
  · intro entry member
    obtain rfl := List.mem_singleton.mp member
    exact ⟨⟨_, listed, exam⟩, _, List.mem_singleton_self _, rfl, fun _ => .inl⟩
  · intro _ _ _ _
    apply List.filter_congr
    intro entry member
    have sits : (before.demands.map (·.exam)).any (·.ancode = entry.ancode) = true :=
      List.any_eq_true.mpr ⟨_, listed, by simpa [List.mem_singleton.mp member] using exam⟩
    rw [sits, Bool.and_true]

private theorem pinStudents_run (plain : pin.reserve = false)
    (returned : Round.pinStudents { before with pool } threshold index demand place pin = .ok after) :
    ∃ entries, Run threshold before entries after ∧ Honours [pin] before entries after := by
  rw [pinStudents_eq] at returned
  obtain ⟨same, fits, kept, left, allowed⟩ := drawn_spec demand pin (pool.seatsLeft place)
  generalize drawn demand pin (pool.seatsLeft place) = parts at returned same fits kept left allowed
  obtain ⟨step, demands, -, holds⟩ := seat_step offered rfl fits returned
  refine ⟨_, .single step, ?_, fun other => (holds other).trans (offered.holds_iff sound), ?_, ?_, ?_, ?_⟩
  · rw [demands]
    exact exams_set present same
  · intro ancode student waiting
    rw [demands]
    refine (mem_remaining_set present same kept waiting).imp_right ?_
    rintro ⟨rfl, seated⟩
    exact mem_studentsOf.mpr ⟨_, List.mem_singleton_self _, by simpa [ofExam] using exam.symm, seated⟩
  · intro ancode student waiting
    rw [demands] at waiting
    exact mem_remaining_of_set present same left waiting
  · intro entry member
    obtain rfl := List.mem_singleton.mp member
    have listed : demand.exam ∈ before.demands.map (·.exam) :=
      List.mem_map_of_mem (List.mem_of_getElem? present)
    refine ⟨⟨_, listed, exam⟩, _, List.mem_singleton_self _, ?_, fun student seated => ?_⟩
    · simp [key, here, name, plain]
    · refine (allowed student seated).imp_right fun waiting => ?_
      exact mem_remaining.mpr ⟨demand, List.mem_of_getElem? present, exam, waiting⟩
  · intro _ _ _ _
    simp [reserveIn, plain]

end

/-- A pin is for the first exam of its ancode. It is skipped if there is none or if its room cannot be found;
else it is echoed or it seats students. -/
theorem pin_found (returned : before.pin threshold pin = .ok after) :
    after = before ∧ (before.demands.zipIdx.find? (·.1.exam.ancode = pin.ancode) = none ∨
        before.pool.openNamed? pin.room = none) ∨
      ∃ demand index place pool, before.demands.zipIdx.find? (·.1.exam.ancode = pin.ancode) = some (demand, index) ∧
        before.pool.openNamed? pin.room = some (place, pool) ∧
        (pin.reserve = true ∧ after = Round.pinReserve { before with pool } place pin ∨
          pin.reserve = false ∧
            Round.pinStudents { before with pool } threshold index demand place pin = .ok after) := by
  unfold Round.pin at returned
  split at returned
  · rename_i absent
    exact .inl ⟨(Except.ok.inj returned).symm, .inl absent⟩
  · rename_i demand index found
    split at returned
    · rename_i closed
      exact .inl ⟨(Except.ok.inj returned).symm, .inr closed⟩
    · rename_i place pool opened
      refine .inr ⟨demand, index, place, pool, found, opened, ?_⟩
      simp only at returned
      split at returned
      · rename_i reserved
        exact .inl ⟨reserved, (Except.ok.inj returned).symm⟩
      · rename_i plain
        exact .inr ⟨by simpa using plain, returned⟩

theorem pin_cases (returned : before.pin threshold pin = .ok after) :
    after = before ∧ ((∀ demand ∈ before.demands, demand.exam.ancode ≠ pin.ancode) ∨
        before.pool.openNamed? pin.room = none) ∨
      ∃ demand index place pool, before.demands[index]? = some demand ∧
        demand.exam.ancode = pin.ancode ∧ before.pool.openNamed? pin.room = some (place, pool) ∧
        (pin.reserve = true ∧ after = Round.pinReserve { before with pool } place pin ∨
          pin.reserve = false ∧
            Round.pinStudents { before with pool } threshold index demand place pin = .ok after) := by
  rcases pin_found returned with ⟨rfl, absent | closed⟩ | ⟨demand, index, place, pool, found, opened, done⟩
  · refine .inl ⟨rfl, .inl fun demand present same => ?_⟩
    obtain ⟨index, inside⟩ := List.getElem?_of_mem present
    simpa [same] using List.find?_eq_none.mp absent _ (List.mk_mem_zipIdx_iff_getElem?.mpr inside)
  · exact .inl ⟨rfl, .inr closed⟩
  · have present := List.mk_mem_zipIdx_iff_getElem?.mp (List.mem_of_find?_eq_some found)
    have exam : demand.exam.ancode = pin.ancode := by simpa using List.find?_some found
    exact .inr ⟨demand, index, place, pool, present, exam, opened, done⟩

theorem pin_run (sound : Sound before.pool) (here : pin.slot = before.slot)
    (returned : before.pin threshold pin = .ok after) :
    ∃ entries, Run threshold before entries after ∧ Honours [pin] before entries after := by
  rcases pin_cases returned with ⟨rfl, skipped⟩ | ⟨demand, index, place, pool, present, exam, opened, done⟩
  · refine ⟨[], .done _, .nothing _ fun place known named held other member room _ listed same => ?_⟩
    obtain rfl := List.mem_singleton.mp member
    rcases skipped with absent | closed
    · obtain ⟨demand, present, rfl⟩ := List.mem_map.mp listed
      exact absent demand present same
    · obtain ⟨pool, opened⟩ := exists_named named known held
      rw [← room, closed] at opened
      cases opened
  · obtain ⟨offered, name⟩ := offers_named sound opened
    rcases done with ⟨reserved, rfl⟩ | ⟨plain, returned⟩
    · exact ⟨[pin], pinReserve_run present exam here name sound offered reserved⟩
    · exact pinStudents_run present exam here name sound offered plain returned

theorem pins_run {pins : List Seating} (sound : Sound before.pool)
    (here : ∀ pin ∈ pins, pin.slot = before.slot)
    (returned : pins.foldlM (·.pin threshold ·) before = .ok after) :
    ∃ entries, Run threshold before entries after ∧ Honours pins before entries after := by
  induction pins generalizing before with
  | nil =>
    obtain rfl := pure_ok returned
    exact ⟨[], .done _, .nothing _ fun _ _ _ _ _ none => by cases none⟩
  | cons pin pins ih =>
    rw [List.foldlM_cons] at returned
    obtain ⟨middle, first, returned⟩ := bind_ok returned
    obtain ⟨entries, step, honoured⟩ := pin_run sound (here pin List.mem_cons_self) first
    obtain ⟨later, rest, others⟩ := ih (step.sound sound)
      (fun other member => step.slot_eq ▸ here other (List.mem_cons_of_mem _ member)) returned
    exact ⟨entries ++ later, step.append rest, honoured.append others step.places_eq⟩

private theorem pin_demands {good : Demand → Prop}
    (drawing : ∀ demand pin seats, good demand → good (drawn demand pin seats).2)
    (returned : before.pin threshold pin = .ok after) (start : ∀ demand ∈ before.demands, good demand) :
    ∀ demand ∈ after.demands, good demand := by
  rcases pin_cases returned with ⟨rfl, -⟩ | ⟨demand, index, place, pool, present, -, -, done⟩
  · exact start
  rcases done with ⟨-, rfl⟩ | ⟨-, returned⟩
  · exact start
  rw [pinStudents_eq] at returned
  obtain ⟨blocked, -, rfl⟩ := seat_ok returned
  intro other member
  rcases List.mem_or_eq_of_mem_set member with member | rfl
  · exact start other member
  · exact drawing _ _ _ (start demand (List.mem_of_getElem? present))

/-- What holds of the demands, and of all that is left of such a demand, holds after the pins. -/
theorem pins_demands {pins : List Seating} {good : Demand → Prop}
    (drawing : ∀ demand pin seats, good demand → good (drawn demand pin seats).2)
    (returned : pins.foldlM (·.pin threshold ·) before = .ok after) (start : ∀ demand ∈ before.demands, good demand) :
    ∀ demand ∈ after.demands, good demand :=
  foldlM_keeps (fun round => ∀ demand ∈ round.demands, good demand)
    (fun _ _ _ held first => pin_demands drawing first held) start returned

/-- What a phase does in which students leave the demands exactly when they are noted. -/
structure Drains (before : Round) (entries : List Seating) (after : Round) : Prop where
  exams : after.demands.map (·.exam) = before.demands.map (·.exam)
  leaves : ∀ ancode, (remaining ancode before.demands).Perm
    (studentsOf (ofExam ancode) entries ++ remaining ancode after.demands)
  filled : ∀ entry ∈ entries, entry.reserve = false ∧ entry.students ≠ []

theorem Drains.nothing (round : Round) : Drains round [] round :=
  ⟨rfl, fun _ => .refl _, fun _ none => by cases none⟩

theorem Drains.append (first : Drains before entries middle) (second : Drains middle later after) :
    Drains before (entries ++ later) after where
  exams := second.exams.trans first.exams
  leaves ancode := by
    rw [studentsOf_append, List.append_assoc]
    exact (first.leaves ancode).trans ((second.leaves ancode).append_left _)
  filled entry member := (List.mem_append.mp member).elim (first.filled entry) (second.filled entry)

private theorem drains_one {entry : Seating} {count : Nat} (present : before.demands[index]? = some demand)
    (demands : after.demands = before.demands.set index (demand.dropNormal count))
    (exam : entry.ancode = demand.exam.ancode) (students : entry.students = demand.firstNormal count)
    (plain : entry.reserve = false) (filled : entry.students ≠ []) : Drains before [entry] after where
  exams := by
    rw [demands]
    exact exams_set present rfl
  leaves ancode := by
    rw [demands]
    have same : (demand.dropNormal count).exam = demand.exam := rfl
    refine (remaining_set present same (.of_eq (pending_drop demand count)) ancode).trans (.of_eq ?_)
    rw [← students, ← exam]
    by_cases same : entry.ancode = ancode
    · rw [if_pos same, studentsOf_chosen (by simpa [ofExam] using same)]
    · rw [if_neg same, studentsOf_other (by simpa [ofExam] using same)]
  filled other member := by
    obtain rfl := List.mem_singleton.mp member
    exact ⟨plain, filled⟩

theorem normals_set {demands : List Demand} {count : Nat} (present : demands[index]? = some demand)
    (some : 0 < count) (waiting : demand.normal ≠ []) :
    total ((demands.set index (demand.dropNormal count)).map (·.normal.length))
      < total (demands.map (·.normal.length)) := by
  obtain ⟨front, back, split, replaced⟩ := exists_split present
  have fewer : (demand.dropNormal count).normal.length < demand.normal.length := by
    have positive := List.length_pos_iff.mpr waiting
    simp only [Demand.dropNormal, List.length_drop]
    omega
  rw [replaced, split]
  simp only [List.map_append, List.map_cons, Ordering.total_append, Ordering.total_cons]
  omega

theorem mostUrgent?_spec {demands : List Demand} (urgent : Round.mostUrgent? demands = some (demand, index)) :
    demands[index]? = some demand ∧ demand.normal ≠ [] := by
  obtain ⟨present, waiting⟩ := List.mem_filter.mp (Ordering.lastMax?_mem urgent)
  exact ⟨List.mk_mem_zipIdx_iff_getElem?.mp present, by simpa using waiting⟩

theorem mostUrgent?_none {demands : List Demand} (calm : Round.mostUrgent? demands = none) :
    ∀ demand ∈ demands, demand.normal = [] := by
  intro demand member
  obtain ⟨index, present⟩ := List.getElem?_of_mem member
  have none := Ordering.lastMax?_eq_none.mp calm
  have settled := List.filter_eq_nil_iff.mp none _ (List.mk_mem_zipIdx_iff_getElem?.mpr present)
  simpa using settled

theorem offers_opened {pool : Pool} {place : Place} (sound : Sound pool) (free : place ∈ pool.free)
    (seats : 0 < place.room.seats) :
    Offers pool place (pool.openRoom place) ∧ 0 < (pool.openRoom place).seatsLeft place := by
  exact ⟨.opened free, by rw [openRoom_seats sound free]; exact seats⟩

/-- The room for normal students is one in use with seats for all of them, or a free one with any. -/
theorem roomForNormal?_spec {pool after : Pool} {smallResidual duration students : Nat}
    {needs : RoomNeeds} {place : Place} (sound : Sound pool) (wanted : 0 < students)
    (found : Round.roomForNormal? pool smallResidual needs duration students = some (place, after)) :
    Offers pool place after ∧ 0 < after.seatsLeft place := by
  unfold Round.roomForNormal? at found
  simp only at found
  split at found
  · rename_i shared
    obtain ⟨rfl, rfl⟩ : _ = place ∧ pool = after := by simpa using found
    split at shared
    · obtain ⟨room, present, rfl, roomy, -⟩ := shareable?_spec shared
      exact ⟨.inUse present, by rw [sound.seatsLeft_used present]; omega⟩
    · cases shared
  · obtain ⟨free, rfl, seats⟩ := offers_fresh found
    exact offers_opened sound free seats

theorem seatNormal_step {params : RoomParams} (sound : Sound before.pool)
    (present : before.demands[index]? = some demand) (waiting : demand.normal ≠ [])
    (returned : before.seatNormal params demand index = .ok after) :
    ∃ entry, Step params.longDurationThreshold before entry after ∧ Drains before [entry] after ∧
      after.normalCount < before.normalCount := by
  have wanted := List.length_pos_iff.mpr waiting
  unfold Round.seatNormal at returned
  simp only at returned
  split at returned
  · rename_i place pool found
    obtain ⟨offered, roomy⟩ := roomForNormal?_spec sound wanted found
    have some : 0 < min (pool.seatsLeft place) demand.normal.length := by omega
    have seated : (demand.firstNormal (min (pool.seatsLeft place) demand.normal.length)).length
        = min (pool.seatsLeft place) demand.normal.length := by
      rw [Demand.firstNormal, List.length_take]
      omega
    obtain ⟨step, demands, -⟩ := seat_step offered seated (Nat.min_le_left ..) returned
    refine ⟨_, step, drains_one present demands rfl rfl rfl ?_, ?_⟩
    · apply List.ne_nil_of_length_pos
      exact seated.symm ▸ some
    · rw [Round.normalCount, demands]
      exact normals_set present some waiting
  · obtain rfl := Except.ok.inj returned
    refine ⟨⟨before.slot, Room.placeholder, demand.exam.ancode, demand.exam.duration, demand.normal,
      false, false⟩, .short rfl rfl rfl rfl, ?_, normals_set present wanted waiting⟩
    exact drains_one present rfl rfl (by simp [Demand.firstNormal]) rfl waiting

private theorem seatNormals_run {params : RoomParams} {steps : Nat} (sound : Sound before.pool)
    (enough : before.normalCount ≤ steps) (returned : before.seatNormals params steps = .ok after) :
    ∃ entries, Run params.longDurationThreshold before entries after ∧ Drains before entries after ∧
      ∀ demand ∈ after.demands, demand.normal = [] := by
  induction steps generalizing before with
  | zero =>
    obtain rfl := Except.ok.inj returned
    refine ⟨[], .done _, .nothing _, fun demand member => ?_⟩
    have none := Ordering.total_eq_zero_iff.mp (Nat.le_zero.mp enough) _ (List.mem_map_of_mem member)
    exact List.eq_nil_of_length_eq_zero none
  | succ steps ih =>
    unfold Round.seatNormals at returned
    split at returned
    · rename_i calm
      obtain rfl := Except.ok.inj returned
      exact ⟨[], .done _, .nothing _, mostUrgent?_none calm⟩
    · rename_i demand index urgent
      obtain ⟨middle, first, returned⟩ := bind_ok returned
      obtain ⟨present, waiting⟩ := mostUrgent?_spec urgent
      obtain ⟨entry, step, drained, fewer⟩ := seatNormal_step sound present waiting first
      obtain ⟨later, rest, others, settled⟩ := ih (step.sound sound) (by omega) returned
      exact ⟨entry :: later, .next step rest, drained.append others, settled⟩

/-- A fold whose steps are runs is a run, with the entries of each step in order. -/
theorem foldlM_run {α : Type} {f : Round → α → Except Fault Round} {brings : α → List Seating → Prop}
    {items : List α} (sound : Sound before.pool)
    (step : ∀ item ∈ items, ∀ middle after, Sound middle.pool → middle.pool.places = before.pool.places →
      f middle item = .ok after →
      ∃ entries, Run threshold middle entries after ∧ after.demands = middle.demands ∧ brings item entries)
    (returned : items.foldlM f before = .ok after) :
    ∃ logs, Run threshold before logs.flatten after ∧ after.demands = before.demands ∧
      List.Forall₂ brings items logs := by
  induction items generalizing before with
  | nil =>
    obtain rfl := pure_ok returned
    exact ⟨[], .done _, rfl, .nil⟩
  | cons item items ih =>
    rw [List.foldlM_cons] at returned
    obtain ⟨middle, first, returned⟩ := bind_ok returned
    obtain ⟨entries, run, same, brought⟩ := step item List.mem_cons_self _ _ sound rfl first
    obtain ⟨logs, rest, unchanged, others⟩ := ih (run.sound sound)
      (fun other member round final kept places => step other (List.mem_cons_of_mem _ member) round final kept
        (places.trans run.places_eq)) returned
    exact ⟨entries :: logs, run.append rest, unchanged.trans same, .cons brought others⟩

structure Brings (exam : Exam) (students : List StudentId) (entries : List Seating) : Prop where
  exam_eq : ∀ entry ∈ entries, entry.ancode = exam.ancode
  filled : ∀ entry ∈ entries, entry.reserve = false ∧ entry.students ≠ []
  students_eq : entries.flatMap (·.students) = students

theorem Brings.one {exam : Exam} {entry : Seating} {student : StudentId}
    (ancode : entry.ancode = exam.ancode) (plain : entry.reserve = false)
    (single : entry.students = [student]) : Brings exam [student] [entry] where
  exam_eq other member := List.mem_singleton.mp member ▸ ancode
  filled other member := List.mem_singleton.mp member ▸ ⟨plain, by simp [single]⟩
  students_eq := by simp [single]

theorem Brings.append {exam : Exam} {students others : List StudentId}
    (first : Brings exam students entries) (second : Brings exam others later) :
    Brings exam (students ++ others) (entries ++ later) where
  exam_eq entry member := (List.mem_append.mp member).elim (first.exam_eq entry) (second.exam_eq entry)
  filled entry member := (List.mem_append.mp member).elim (first.filled entry) (second.filled entry)
  students_eq := by rw [List.flatMap_append, first.students_eq, second.students_eq]

theorem Brings.flatten {α : Type} {exam : Exam} {items : List α} {students : α → List StudentId}
    {logs : List (List Seating)}
    (each : List.Forall₂ (fun item entries => Brings exam (students item) entries) items logs) :
    Brings exam (items.flatMap students) logs.flatten := by
  induction each with
  | nil => exact ⟨by simp, by simp, rfl⟩
  | cons first _ ih => exact first.append ih

private theorem Brings.studentsOf_eq {exam : Exam} {students : List StudentId}
    (brought : Brings exam students entries) (ancode : Ancode) :
    studentsOf (ofExam ancode) entries = if exam.ancode = ancode then students else [] := by
  have kind : ∀ entry ∈ entries, ofExam ancode entry = decide (exam.ancode = ancode) :=
    fun entry member => by rw [ofExam, brought.exam_eq entry member]
  rw [studentsOf, List.filter_congr kind, ← brought.students_eq]
  by_cases same : exam.ancode = ancode <;> simp [same]

private theorem seatExtended_run {exam : Exam} {timed : TimedStudent} (sound : Sound before.pool)
    (returned : before.seatExtended threshold exam timed = .ok after) :
    ∃ entries, Run threshold before entries after ∧ after.demands = before.demands ∧
      Brings exam [timed.student] entries := by
  unfold Round.seatExtended at returned
  simp only at returned
  split at returned
  · rename_i place pool found
    have offered : Offers before.pool place pool ∧ 0 < pool.seatsLeft place := by
      unfold Round.roomForExtended? at found
      split at found
      · rename_i used
        obtain ⟨rfl, rfl⟩ : _ = place ∧ before.pool = pool := by simpa using found
        obtain ⟨room, present, rfl, roomy⟩ := withSpaceFor_used used
        exact ⟨.inUse present, by rw [sound.seatsLeft_used present]; exact roomy⟩
      · obtain ⟨free, rfl, seats⟩ := offers_freshSmallest found
        exact offers_opened sound free seats
    obtain ⟨step, demands, -⟩ := seat_step offered.1 List.length_singleton offered.2 returned
    exact ⟨_, .single step, demands, .one rfl rfl rfl⟩
  · obtain rfl := Except.ok.inj returned
    exact ⟨_, .single (.short rfl rfl rfl rfl), rfl, .one rfl rfl rfl⟩

private theorem seatAlone_run {exam : Exam} {timed : TimedStudent}
    (returned : before.seatAlone threshold exam timed = .ok after) :
    ∃ entries, Run threshold before entries after ∧ after.demands = before.demands ∧
      Brings exam [timed.student] entries := by
  unfold Round.seatAlone at returned
  simp only at returned
  split at returned
  · rename_i place pool found
    obtain ⟨free, rfl, seats⟩ := takeSmallest_ok found
    obtain ⟨blocked, blocks, rfl⟩ := seat_ok returned
    exact ⟨_, .single (.alone free seats rfl rfl rfl rfl blocks), rfl, .one rfl rfl rfl⟩
  · obtain rfl := Except.ok.inj returned
    exact ⟨_, .single (.short rfl rfl rfl rfl), rfl, .one rfl rfl rfl⟩

private theorem seatAccommodated_run (sound : Sound before.pool)
    (returned : before.seatAccommodated threshold demand = .ok after) :
    ∃ entries, Run threshold before entries after ∧ after.demands = before.demands ∧
      Brings demand.exam ((demand.extended ++ demand.alone).map (·.student)) entries := by
  obtain ⟨middle, first, returned⟩ := bind_ok returned
  obtain ⟨extended, run, same, each⟩ := foldlM_run sound
    (fun _ _ _ _ sound _ returned => seatExtended_run sound returned) first
  obtain ⟨alone, rest, unchanged, others⟩ := foldlM_run (run.sound sound)
    (fun _ _ _ _ _ _ returned => seatAlone_run returned) returned
  refine ⟨_, run.append rest, unchanged.trans same, ?_⟩
  rw [List.map_append, List.map_eq_flatMap, List.map_eq_flatMap]
  exact (Brings.flatten each).append (Brings.flatten others)

/-- What the phases after the pins note: every student the demands still hold, once, and reserves
without students where reserves are kept at all. -/
structure Fills (minStudents : Nat) (demands : List Demand) (entries : List Seating) : Prop where
  students : ∀ ancode, (remaining ancode demands).Perm (studentsOf (ofExam ancode) entries)
  filled : ∀ entry ∈ entries, entry.reserve = false → entry.students ≠ []
  reserves : ∀ entry ∈ entries, entry.reserve = true →
    entry.students = [] ∧ minStudents ≠ 0 ∧ ∃ demand ∈ demands, demand.exam.ancode = entry.ancode

/-- Where no normal student is left, the accommodated ones are all who remain. -/
theorem accommodated_run {demands : List Demand} (sound : Sound before.pool)
    (settled : ∀ demand ∈ demands, demand.normal = [])
    (returned : demands.foldlM (Round.seatAccommodated threshold) before = .ok after) :
    ∃ entries, Run threshold before entries after ∧ after.demands = before.demands ∧
      (∀ ancode, studentsOf (ofExam ancode) entries = remaining ancode demands) ∧
      ∀ entry ∈ entries, entry.reserve = false ∧ entry.students ≠ [] := by
  obtain ⟨logs, run, same, each⟩ := foldlM_run sound
    (fun _ _ _ _ sound _ returned => seatAccommodated_run sound returned) returned
  refine ⟨_, run, same, ?_⟩
  clear returned run
  induction each with
  | nil => exact ⟨fun _ => rfl, by simp⟩
  | @cons demand entries demands logs brought _ ih =>
    obtain ⟨students, filled⟩ := ih fun other member => settled other (List.mem_cons_of_mem _ member)
    refine ⟨fun ancode => ?_, fun entry member => ?_⟩
    · rw [List.flatten_cons, studentsOf_append, students, brought.studentsOf_eq, remaining_cons demand,
        remaining_one, pending, settled demand List.mem_cons_self, List.nil_append]
    · rw [List.flatten_cons, List.mem_append] at member
      exact member.elim (brought.filled entry) (filled entry)

inductive Keeps : Round → List Seating → Round → Prop where
  | done (round : Round) : Keeps round [] round
  | next {before after : Round} {place : Place} {entry : Seating} {entries : List Seating}
      (free : place ∈ before.pool.free) (slot : entry.slot = before.slot) (room : entry.room = place.room.name)
      (reserved : entry.reserve = true) (empty : entry.students = [])
      (rest : Keeps { before with pool := before.pool.take place, seatings := before.seatings ++ [entry] } entries after) :
      Keeps before (entry :: entries) after

namespace Keeps

theorem append (first : Keeps before entries middle) (rest : Keeps middle later after) :
    Keeps before (entries ++ later) after := by
  induction first with
  | done => exact rest
  | next free slot room reserved empty _ ih => exact .next free slot room reserved empty (ih rest)

theorem run (keeps : Keeps before entries after) : Run threshold before entries after := by
  induction keeps with
  | done => exact .done _
  | next free slot room reserved empty _ ih => exact .next (.keep free slot room reserved empty) ih

theorem seatings_eq (keeps : Keeps before entries after) : after.seatings = before.seatings ++ entries := by
  induction keeps with
  | done => rw [List.append_nil]
  | next _ _ _ _ _ _ ih => rw [ih, List.append_assoc, List.singleton_append]

theorem reserves (keeps : Keeps before entries after) :
    ∀ entry ∈ entries, entry.reserve = true ∧ entry.students = [] := by
  induction keeps with
  | done => exact nofun
  | next _ _ _ reserved empty _ ih => exact List.forall_mem_cons.mpr ⟨⟨reserved, empty⟩, ih⟩

end Keeps

def isDue (minStudents : Nat) (demand : Demand) : Bool := minStudents ≠ 0 && minStudents ≤ demand.normalTotal

/-- A demand has a room kept for it at most once, and only if one is due. -/
theorem keepReserve_keeps {minStudents : Nat} (counts : minStudents ≠ 0) (round : Round) (demand : Demand) :
    ∃ kept, Keeps round kept (round.keepReserve minStudents demand) ∧
      (kept.map (·.ancode)).Sublist (([demand].filter (isDue minStudents)).map (·.exam.ancode)) := by
  unfold Round.keepReserve
  split
  · exact ⟨[], .done _, List.nil_sublist _⟩
  · rename_i large
    have due : isDue minStudents demand = true := by simpa [isDue, counts] using large
    split
    · rename_i place pool found
      obtain ⟨free, rfl, -⟩ := takeSmallest_ok found
      refine ⟨_, .next free rfl rfl rfl rfl (.done _), ?_⟩
      rw [List.filter_cons_of_pos due]
      exact .refl _
    · exact ⟨[], .done _, List.nil_sublist _⟩

theorem keepReserves_keeps (minStudents : Nat) (round : Round) :
    ∃ kept, Keeps round kept (round.keepReserves minStudents) ∧
      (kept.map (·.ancode)).Sublist ((round.demands.filter (isDue minStudents)).map (·.exam.ancode)) := by
  unfold Round.keepReserves
  split
  · exact ⟨[], .done _, List.nil_sublist _⟩
  · rename_i counts
    generalize round.demands = demands
    induction demands generalizing round with
    | nil => exact ⟨[], .done _, List.nil_sublist _⟩
    | cons demand demands ih =>
      obtain ⟨kept, first, own⟩ := keepReserve_keeps counts round demand
      obtain ⟨later, rest, others⟩ := ih (round.keepReserve minStudents demand)
      refine ⟨kept ++ later, first.append rest, ?_⟩
      rw [← List.singleton_append, List.filter_append, List.map_append, List.map_append]
      exact own.append others

theorem keepReserves_run (threshold minStudents : Nat) (round : Round) :
    ∃ entries, Run threshold round entries (round.keepReserves minStudents) ∧
      ∀ entry ∈ entries, entry.reserve = true ∧ entry.students = [] ∧ minStudents ≠ 0 ∧
        ∃ demand ∈ round.demands, demand.exam.ancode = entry.ancode := by
  obtain ⟨kept, keeps, dues⟩ := keepReserves_keeps minStudents round
  refine ⟨kept, keeps.run, fun entry member => ?_⟩
  obtain ⟨reserved, empty⟩ := keeps.reserves entry member
  obtain ⟨demand, due, exam⟩ := List.mem_map.mp (dues.subset (List.mem_map_of_mem member))
  obtain ⟨listed, counts⟩ := List.mem_filter.mp due
  refine ⟨reserved, empty, ?_, demand, listed, exam⟩
  rintro rfl
  simp [isDue] at counts

section
variable {allocator : Allocator} {records : List Accommodation} {pinned : List Seating}
  {blocked : List Block} {slot : Slot} {exams : List Exam} {start round : Round}

/-- The phases after the pins are one run. -/
theorem phases_run (sound : Sound before.pool)
    (returned : (do
      let round ← before.seatNormals allocator.params before.normalCount
      let round ← round.demands.foldlM
        (Round.seatAccommodated allocator.params.longDurationThreshold) round
      return round.keepReserves allocator.params.reserveMinStudents : Except Fault Round) = .ok after) :
    ∃ entries, Run allocator.params.longDurationThreshold before entries after ∧
      Fills allocator.params.reserveMinStudents before.demands entries := by
  obtain ⟨drained, normals, returned⟩ := bind_ok returned
  obtain ⟨final, accommodated, returned⟩ := bind_ok returned
  obtain rfl := pure_ok returned
  obtain ⟨seated, second, drains, settled⟩ := seatNormals_run sound (Nat.le_refl _) normals
  obtain ⟨timed, third, same, students, filled⟩ :=
    accommodated_run (second.sound sound) settled accommodated
  obtain ⟨kept, last, reserves⟩ := keepReserves_run allocator.params.longDurationThreshold
    allocator.params.reserveMinStudents final
  refine ⟨seated ++ (timed ++ kept), second.append (third.append last), ?_, ?_, ?_⟩
  · intro ancode
    have none : studentsOf (ofExam ancode) kept = [] :=
      studentsOf_none fun entry member _ => (reserves entry member).2.1
    rw [studentsOf_append, studentsOf_append, students, none, List.append_nil]
    exact drains.leaves ancode
  · intro entry member plain
    rcases List.mem_append.mp member with member | member
    · exact (drains.filled entry member).2
    · rcases List.mem_append.mp member with member | member
      · exact (filled entry member).2
      · simp [(reserves entry member).1] at plain
  · intro entry member reserved
    have unreserved {other : Seating} (plain : other.reserve = false) : other ≠ entry := by
      rintro rfl
      simp [plain] at reserved
    rcases List.mem_append.mp member with member | member
    · exact absurd rfl (unreserved (drains.filled entry member).1)
    · rcases List.mem_append.mp member with member | member
      · exact absurd rfl (unreserved (filled entry member).1)
      · obtain ⟨-, empty, kept, demand, listed, exam⟩ := reserves entry member
        refine ⟨empty, kept, ?_⟩
        have exams : demand.exam ∈ before.demands.map (·.exam) :=
          drains.exams ▸ same ▸ List.mem_map_of_mem listed
        obtain ⟨other, present, equal⟩ := List.mem_map.mp exams
        exact ⟨other, present, equal ▸ exam⟩

/-- A slot is a run for its pins and then one for all others. -/
theorem allocateSlot_run (started : allocator.start records blocked slot exams = .ok start)
    (sound : Sound start.pool) (here : start.slot = slot)
    (returned : allocator.allocateSlot records pinned blocked slot exams = .ok round) :
    ∃ honoured middle entries,
      (pinned.filter (·.slot = slot)).foldlM (·.pin allocator.params.longDurationThreshold ·) start
        = .ok middle ∧
      Run allocator.params.longDurationThreshold start honoured middle ∧
      Honours (pinned.filter (·.slot = slot)) start honoured middle ∧
      Run allocator.params.longDurationThreshold middle entries round ∧
      Fills allocator.params.reserveMinStudents middle.demands entries := by
  obtain ⟨begun, begins, returned⟩ := bind_ok returned
  obtain rfl := Except.ok.inj (started.symm.trans begins)
  obtain ⟨middle, pins, returned⟩ := bind_ok returned
  obtain ⟨honoured, first, honours⟩ := pins_run sound
    (fun pin member => by simpa [here] using (List.mem_filter.mp member).2) pins
  obtain ⟨entries, second, fills⟩ := phases_run (first.sound sound) returned
  exact ⟨honoured, middle, entries, pins, first, honours, second, fills⟩

end

end Timetable.Proofs.SeatingPhases
