import Timetable.Proofs.ExhaustedRooms
import Timetable.Proofs.SeatingPasses
import Timetable.Proofs.SeatingReturns

/-! What a slot owes to its students once the pins are through. Each of them is noted for a room that offers
what they need, or for none, and for as many minutes as they are granted. -/

namespace Timetable.Proofs.StudentDues
open SeatDemands SeatEntries SeatPool SeatingSteps SeatingPhases SlotRounds SeatReasons SeatMoves PinsAgain
  ExhaustedRooms SeatingPasses SeatingReturns Returned

variable {allocator : Allocator} {records : List Accommodation} {pinned : List Seating} {blocked : List Block}
  {slot : Slot} {exams : List Exam} {exam : Exam} {params : RoomParams} {places : List Place} {place : Place}
  {pool : Pool} {start before middle after last round : Round} {demand : Demand} {index count passes threshold : Nat}
  {entry : Seating} {entries later : List Seating} {student : StudentId} {timed : TimedStudent}

def roundedUp (hundredths : Nat) : Nat :=
  if hundredths % 100 = 0 then hundredths / 100 else hundredths / 100 + 1

/-- The minutes a student is granted for an exam: more than its own are rounded up, and cut off at the greatest
number of a document. -/
def minutesOf (records : List Accommodation) (exam : Exam) (student : StudentId) : Nat :=
  match percent? (Grant.of records student) with
  | none => exam.duration
  | some percent => min (roundedUp (exam.duration * (100 + percent))) (numberLimit - 1)

theorem roundedUp_eq (hundredths : Nat) : roundedUp hundredths = (hundredths + 99) / 100 := by
  unfold roundedUp
  split <;> omega

private theorem minutesOf_normal (normal : reasonFor records student = .noCompatibleRoom) :
    minutesOf records exam student = exam.duration := by
  cases grant : Grant.of records student <;> simp [reasonFor, grant] at normal
  simp [minutesOf, grant, percent?]

private theorem minutesOf_granted {percent minutes : Nat} (granted : percent? (Grant.of records student) = some percent)
    (scaled : scaledDuration exam.duration percent = .ok minutes) : minutes = minutesOf records exam student := by
  unfold scaledDuration at scaled
  dsimp only at scaled
  split at scaled
  · simp only [← Except.ok.inj scaled, minutesOf, granted, roundedUp_eq]
  · cases scaled

structure Timed (records : List Accommodation) (demand : Demand) : Prop where
  sorted : Sorted records demand
  minutes : ∀ timed ∈ demand.extended ++ demand.alone,
    timed.duration = minutesOf records demand.exam timed.student

private theorem timed_ofExam (returned : Demand.ofExam records exam = .ok demand) : Timed records demand := by
  refine ⟨sorted_ofExam returned, ?_⟩
  obtain ⟨extended, others, returned⟩ := bind_ok returned
  obtain ⟨alone, single, returned⟩ := bind_ok returned
  obtain rfl := pure_ok returned
  intro timed member
  rcases List.mem_append.mp member with member | member
  · obtain ⟨-, percent, granted, scaled⟩ := timed_scaled others member
    exact minutesOf_granted (extraTime_percent granted) scaled
  · obtain ⟨-, percent, granted, scaled⟩ := timed_scaled single member
    exact minutesOf_granted (roomAlone_percent granted) scaled

private theorem timed_drawn (demand : Demand) (pin : Seating) (seats : Nat) (timed : Timed records demand) :
    Timed records (drawn demand pin seats).2 := by
  have left := leftOf_drawn demand pin seats
  exact ⟨sorted_drawn demand pin seats timed.sorted, fun entry member =>
    left.exam ▸ timed.minutes entry (left.timed entry member)⟩

private theorem timed_drop (timed : Timed records demand) (count : Nat) : Timed records (demand.dropNormal count) where
  sorted := ⟨fun student kept => timed.sorted.normal student (List.mem_of_mem_drop kept), timed.sorted.extended,
    timed.sorted.alone⟩
  minutes := timed.minutes

theorem start_timed (started : allocator.start records blocked slot exams = .ok start) :
    ∀ demand ∈ start.demands, Timed records demand := by
  obtain ⟨demands, listed, started⟩ := bind_ok started
  obtain rfl := pure_ok started
  intro demand member
  obtain ⟨exam, -, returned⟩ := exists_item listed member
  exact timed_ofExam returned

private theorem timed_accommodated (timed : Timed records demand) : Timed records (accommodated demand) :=
  ⟨⟨nofun, timed.sorted.extended, timed.sorted.alone⟩, timed.minutes⟩

/-- The students a demand holds besides the normal ones are granted something. -/
theorem Timed.granted (timed : Timed records demand)
    (waits : student ∈ (demand.extended ++ demand.alone).map (·.student)) :
    reasonFor records student ≠ .noCompatibleRoom := by
  obtain ⟨entry, member, rfl⟩ := List.mem_map.mp waits
  rcases List.mem_append.mp member with member | member
  · simp [timed.sorted.extended entry member]
  · simp [timed.sorted.alone entry member]

/-- Where students of an exam are noted: for a room that offers what each of them needs, or for none. -/
inductive Placed (records : List Accommodation) (places : List Place) (exam : Exam) (entry : Seating) : Prop where
  | seated {place : Place} (known : place ∈ places) (room : entry.room = place.room.name)
      (suits : ∀ student ∈ entry.students,
        (needsFor (reasonFor records student) exam).satisfiedBy place.room = true)
      (marked : ∀ student ∈ entry.students,
        entry.accommodated = true ↔ reasonFor records student ≠ .noCompatibleRoom)
  | away (room : entry.room = Room.placeholder) (unmarked : entry.accommodated = false)

private theorem placed_granted (known : place ∈ places) (room : entry.room = place.room.name)
    (single : entry.students = [student]) (marked : entry.accommodated = true)
    (granted : reasonFor records student ≠ .noCompatibleRoom)
    (suits : (needsFor (reasonFor records student) exam).satisfiedBy place.room = true) :
    Placed records places exam entry := by
  refine .seated known room ?_ ?_
  · rwa [single, List.forall_mem_singleton]
  · rw [single, List.forall_mem_singleton]
    exact iff_of_true marked granted

structure Due (records : List Accommodation) (places : List Place) (exam : Exam) (entry : Seating) : Prop where
  ancode : entry.ancode = exam.ancode
  plain : entry.reserve = false
  filled : entry.students ≠ []
  minutes : ∀ student ∈ entry.students, entry.duration = minutesOf records exam student
  placed : Placed records places exam entry

/-- Entries give all who are owed a seat their due, and seat nobody else. -/
structure Serves (records : List Accommodation) (places : List Place) (owed : Exam → StudentId → Prop)
    (entries : List Seating) : Prop where
  each : ∀ entry ∈ entries, ∃ exam, Due records places exam entry ∧ ∀ student ∈ entry.students, owed exam student
  all : ∀ exam student, owed exam student →
    ∃ entry ∈ entries, Due records places exam entry ∧ student ∈ entry.students

namespace Serves

variable {owed others : Exam → StudentId → Prop}

theorem nobody (none : ∀ exam student, ¬ owed exam student) : Serves records places owed [] :=
  ⟨nofun, fun exam student waits => absurd waits (none exam student)⟩

theorem single (due : Due records places exam entry) :
    Serves records places (fun other student => other = exam ∧ student ∈ entry.students) [entry] where
  each other member := by
    obtain rfl := List.mem_singleton.mp member
    exact ⟨exam, due, fun student seated => ⟨rfl, seated⟩⟩
  all other student waits := by
    obtain ⟨rfl, seated⟩ := waits
    exact ⟨entry, List.mem_singleton_self _, due, seated⟩

theorem congr (serves : Serves records places owed entries)
    (same : ∀ exam student, others exam student ↔ owed exam student) : Serves records places others entries where
  each entry noted := by
    obtain ⟨exam, due, seated⟩ := serves.each entry noted
    exact ⟨exam, due, fun student inside => (same exam student).mpr (seated student inside)⟩
  all exam student waits := serves.all exam student ((same exam student).mp waits)

/-- An entry for a student by themselves. -/
theorem one (ancode : entry.ancode = exam.ancode) (plain : entry.reserve = false)
    (alone : entry.students = [student]) (minutes : entry.duration = minutesOf records exam student)
    (placed : Placed records places exam entry) :
    Serves records places (fun other waits => other = exam ∧ waits = student) [entry] := by
  have due : Due records places exam entry := by
    refine ⟨ancode, plain, by simp [alone], ?_, placed⟩
    rwa [alone, List.forall_mem_singleton]
  exact (single due).congr (by simp [alone])

theorem append (first : Serves records places owed entries) (second : Serves records places others later) :
    Serves records places (fun exam student => owed exam student ∨ others exam student) (entries ++ later) where
  each entry noted := by
    rcases List.mem_append.mp noted with noted | noted
    · obtain ⟨exam, due, seated⟩ := first.each entry noted
      exact ⟨exam, due, fun student inside => .inl (seated student inside)⟩
    · obtain ⟨exam, due, seated⟩ := second.each entry noted
      exact ⟨exam, due, fun student inside => .inr (seated student inside)⟩
  all exam student waits := by
    rcases waits with waits | waits
    · obtain ⟨entry, noted, due⟩ := first.all exam student waits
      exact ⟨entry, List.mem_append_left _ noted, due⟩
    · obtain ⟨entry, noted, due⟩ := second.all exam student waits
      exact ⟨entry, List.mem_append_right _ noted, due⟩

theorem flatten {α : Type} {items : List α} {owed : α → Exam → StudentId → Prop} {logs : List (List Seating)}
    (each : List.Forall₂ (fun item entries => Serves records places (owed item) entries) items logs) :
    Serves records places (fun exam student => ∃ item ∈ items, owed item exam student) logs.flatten := by
  induction each with
  | nil => exact nobody (by simp)
  | cons first _ ih => exact (first.append ih).congr (by simp)

end Serves

/-- The first normal students of a demand in a room they are offered. -/
theorem seatFirst_due (index : Nat) (offered : Offers before.pool place pool) (known : place ∈ before.pool.places)
    (fits : count ≤ pool.seatsLeft place) (enough : count ≤ demand.normal.length) (some : 0 < count)
    (suits : (RoomNeeds.ofExam demand.exam).satisfiedBy place.room = true) (timed : Timed records demand) :
    ∃ entry, Step threshold before entry (seatFirst before demand index place pool count) ∧
      Due records before.pool.places demand.exam entry ∧ entry.students = demand.firstNormal count := by
  have counted : (demand.firstNormal count).length = count := by
    rw [Demand.firstNormal, List.length_take, Nat.min_eq_left enough]
  have normal : ∀ student ∈ demand.firstNormal count, reasonFor records student = .noCompatibleRoom :=
    fun student first => timed.sorted.normal student (List.mem_of_mem_take first)
  refine ⟨_, (seat_step offered counted fits seat_normal).1, ⟨rfl, rfl, ?_, ?_, .seated known rfl ?_ ?_⟩, rfl⟩
  · exact List.ne_nil_of_length_pos (counted.symm ▸ some)
  · exact fun student first => (minutesOf_normal (normal student first)).symm
  · exact fun student first => by rw [normal student first]; exact suits
  · exact fun student first => by simp [normal student first]

theorem Pass.due (pass : Pass params before demand index after) (sound : Sound before.pool)
    (waiting : demand.normal ≠ []) (timed : Timed records demand) :
    ∃ entry count, Step params.longDurationThreshold before entry after ∧
      Due records before.pool.places demand.exam entry ∧ entry.students = demand.firstNormal count ∧
      after.demands = before.demands.set index (demand.dropNormal count) := by
  have wanted := List.length_pos_iff.mpr waiting
  cases pass with
  | joined used few fits company alike suits =>
    rw [← sound.seatsLeft_used used] at fits
    obtain ⟨entry, step, due, students⟩ := seatFirst_due index (.inUse used) (sound.used_known _ used) fits
      (Nat.le_refl _) wanted suits timed
    exact ⟨entry, _, step, due, students, rfl⟩
  | opened free roomy suits =>
    obtain ⟨entry, step, due, students⟩ := seatFirst_due index (.opened free) (sound.free_known _ free)
      (openRoom_seats sound free ▸ Nat.min_le_left ..) (Nat.min_le_right ..) (Nat.lt_min.mpr ⟨roomy, wanted⟩)
      suits timed
    exact ⟨entry, _, step, due, students, rfl⟩
  | away denies =>
    refine ⟨⟨before.slot, Room.placeholder, demand.exam.ancode, demand.exam.duration, demand.normal, false, false⟩,
      demand.normal.length, .short rfl rfl rfl rfl, ⟨rfl, rfl, waiting, ?_, .away rfl rfl⟩, ?_, rfl⟩
    · exact fun student normal => (minutesOf_normal (timed.sorted.normal student normal)).symm
    · exact List.take_length.symm

/-- Whose normal students are drawn waits no more, and all others still do. -/
theorem normals_drawn {demands : List Demand} (present : demands[index]? = some demand) (count : Nat) :
    (∃ other ∈ demands, other.exam = exam ∧ student ∈ other.normal) ↔
      (exam = demand.exam ∧ student ∈ demand.firstNormal count) ∨
        ∃ other ∈ demands.set index (demand.dropNormal count), other.exam = exam ∧ student ∈ other.normal := by
  obtain ⟨front, back, split, replaced⟩ := exists_split present
  have parts : student ∈ demand.normal ↔
      student ∈ demand.firstNormal count ∨ student ∈ (demand.dropNormal count).normal := by
    rw [← List.mem_append, Demand.firstNormal, Demand.dropNormal, List.take_append_drop]
  have same : (demand.dropNormal count).exam = demand.exam := rfl
  rw [replaced, split]
  simp only [List.mem_append, List.mem_cons, or_and_right, exists_or, exists_eq_left, parts, same, and_or_left]
  grind

/-- Passes up to the last serve the normal students of all demands and leave the accommodated ones. -/
theorem passes_serve (run : Passes params before passes last) (sound : Sound before.pool)
    (timed : ∀ demand ∈ before.demands, Timed records demand) (drained : ∀ demand ∈ last.demands, demand.normal = []) :
    ∃ entries, Run params.longDurationThreshold before entries last ∧
      Serves records before.pool.places
        (fun exam student => ∃ demand ∈ before.demands, demand.exam = exam ∧ student ∈ demand.normal) entries ∧
      last.demands = before.demands.map accommodated := by
  induction run with
  | done round =>
    refine ⟨[], .done _, .nobody fun exam student => ?_, ?_⟩
    · rintro ⟨demand, member, -, waits⟩
      rw [drained demand member] at waits
      cases waits
    · conv_lhs => rw [← List.map_id round.demands]
      exact List.map_congr_left fun demand member => by rw [accommodated, ← drained demand member]; rfl
  | @next before middle last demand index passes urgent first rest ih =>
    obtain ⟨present, waiting⟩ := mostUrgent?_spec urgent
    have listed := List.mem_of_getElem? present
    obtain ⟨entry, count, step, due, students, demands⟩ :=
      Pass.due (.of_returned sound first) sound waiting (timed demand listed)
    have later : ∀ other ∈ middle.demands, Timed records other := by
      rw [demands]
      intro other member
      rcases List.mem_or_eq_of_mem_set member with member | rfl
      · exact timed other member
      · exact timed_drop (timed demand listed) count
    obtain ⟨entries, run, serves, same⟩ := ih (step.sound sound) later drained
    refine ⟨entry :: entries, .next step run, ((Serves.single due).append (step.places_eq ▸ serves)).congr ?_, ?_⟩
    · intro exam student
      rw [normals_drawn present count, demands, students]
    · rw [same, demands, accommodated_set present]

private theorem seatExtended_serves (sound : Sound before.pool)
    (extended : reasonFor records timed.student = .noSeatForExtendedTime)
    (minutes : timed.duration = minutesOf records exam timed.student)
    (returned : before.seatExtended threshold exam timed = .ok after) :
    ∃ entries, Run threshold before entries after ∧ after.demands = before.demands ∧
      Serves records before.pool.places (fun other student => other = exam ∧ student = timed.student) entries := by
  unfold Round.seatExtended at returned
  dsimp only at returned
  split at returned
  · rename_i place pool found
    obtain ⟨offered, roomy, suits⟩ := roomForExtended?_spec sound found
    obtain ⟨step, same, -⟩ := seat_step offered List.length_singleton roomy returned
    refine ⟨_, .single step, same, .one rfl rfl rfl minutes ?_⟩
    exact placed_granted (offered.known sound) rfl rfl rfl (by simp [extended]) (by rw [extended]; exact suits)
  · obtain rfl := Except.ok.inj returned
    exact ⟨_, .single (.short rfl rfl rfl rfl), rfl, .one rfl rfl rfl minutes (.away rfl rfl)⟩

private theorem seatAlone_serves (sound : Sound before.pool)
    (alone : reasonFor records timed.student = .noRoomToSitAlone)
    (minutes : timed.duration = minutesOf records exam timed.student)
    (returned : before.seatAlone threshold exam timed = .ok after) :
    ∃ entries, Run threshold before entries after ∧ after.demands = before.demands ∧
      Serves records before.pool.places (fun other student => other = exam ∧ student = timed.student) entries := by
  unfold Round.seatAlone at returned
  dsimp only at returned
  split at returned
  · rename_i place pool found
    obtain ⟨first, smallest, same⟩ := Option.map_eq_some_iff.mp found
    obtain ⟨rfl, rfl⟩ := Prod.mk.inj same
    obtain ⟨free, roomy⟩ := smallestFree?_mem smallest
    have suits := compatible_suits (List.find?_some smallest)
    obtain ⟨blocked, blocks, rfl⟩ := seat_ok returned
    refine ⟨_, .single (.alone free roomy rfl rfl rfl rfl blocks), rfl, .one rfl rfl rfl minutes ?_⟩
    exact placed_granted (sound.free_known _ free) rfl rfl rfl (by simp [alone]) (by rw [alone]; exact suits)
  · obtain rfl := Except.ok.inj returned
    exact ⟨_, .single (.short rfl rfl rfl rfl), rfl, .one rfl rfl rfl minutes (.away rfl rfl)⟩

private theorem seatAccommodated_serves (sound : Sound before.pool) (timed : Timed records demand)
    (returned : before.seatAccommodated threshold demand = .ok after) :
    ∃ entries, Run threshold before entries after ∧ after.demands = before.demands ∧
      Serves records before.pool.places (fun exam student => demand.exam = exam ∧
        student ∈ (demand.extended ++ demand.alone).map (·.student)) entries := by
  obtain ⟨middle, first, returned⟩ := bind_ok returned
  obtain ⟨extended, run, same, each⟩ := foldlM_run sound (fun entry member _ _ sound places returned =>
    places ▸ seatExtended_serves sound (timed.sorted.extended entry member)
      (timed.minutes entry (List.mem_append_left _ member)) returned) first
  obtain ⟨alone, rest, unchanged, others⟩ := foldlM_run (run.sound sound) (fun entry member _ _ sound places returned =>
    places ▸ seatAlone_serves sound (timed.sorted.alone entry member)
      (timed.minutes entry (List.mem_append_right _ member)) returned) returned
  rw [run.places_eq] at others
  refine ⟨_, run.append rest, unchanged.trans same, ((Serves.flatten each).append (.flatten others)).congr ?_⟩
  intro exam student
  simp only [List.mem_map, List.mem_append, or_and_right, exists_or]
  grind

/-- Where no normal student is left, the others are all who are still owed a seat. -/
theorem accommodated_serve {demands : List Demand} (sound : Sound before.pool)
    (timed : ∀ demand ∈ demands, Timed records demand)
    (returned : demands.foldlM (Round.seatAccommodated threshold) before = .ok after) :
    ∃ entries, Run threshold before entries after ∧ after.demands = before.demands ∧
      Serves records before.pool.places (fun exam student => ∃ demand ∈ demands, demand.exam = exam ∧
        student ∈ (demand.extended ++ demand.alone).map (·.student)) entries := by
  obtain ⟨logs, run, same, each⟩ := foldlM_run sound (fun demand member _ _ sound places returned =>
    places ▸ seatAccommodated_serves sound (timed demand member) returned) returned
  exact ⟨_, run, same, .flatten each⟩

structure Kept (places : List Place) (exam : Exam) (entry : Seating) : Prop where
  reserved : entry.reserve = true
  empty : entry.students = []
  ancode : entry.ancode = exam.ancode
  placed : ∃ place ∈ places, entry.room = place.room.name ∧ (RoomNeeds.ofExam exam).satisfiedBy place.room = true

private theorem keepReserve_kept (minStudents : Nat) (round : Round) (demand : Demand) (sound : Sound round.pool) :
    ∃ kept, (round.keepReserve minStudents demand).seatings = round.seatings ++ kept ∧
      (∀ entry ∈ kept, Kept round.pool.places demand.exam entry) ∧
      Sound (round.keepReserve minStudents demand).pool ∧
      (round.keepReserve minStudents demand).pool.places = round.pool.places := by
  unfold Round.keepReserve
  split
  · exact ⟨[], (List.append_nil _).symm, nofun, sound, rfl⟩
  · split
    · rename_i place pool found
      obtain ⟨first, smallest, same⟩ := Option.map_eq_some_iff.mp found
      obtain ⟨rfl, rfl⟩ := Prod.mk.inj same
      obtain ⟨free, -⟩ := smallestFree?_mem smallest
      have suits := compatible_suits (List.find?_some smallest)
      refine ⟨_, rfl, List.forall_mem_singleton.mpr ⟨rfl, rfl, rfl, ?_⟩, sound.take _, rfl⟩
      exact ⟨_, sound.free_known _ free, rfl, suits⟩
    · exact ⟨[], (List.append_nil _).symm, nofun, sound, rfl⟩

theorem keepReserves_kept (minStudents : Nat) (round : Round) (sound : Sound round.pool) :
    ∃ kept, (round.keepReserves minStudents).seatings = round.seatings ++ kept ∧
      ∀ entry ∈ kept, ∃ demand ∈ round.demands, Kept round.pool.places demand.exam entry := by
  unfold Round.keepReserves
  split
  · exact ⟨[], (List.append_nil _).symm, nofun⟩
  · generalize round.demands = demands
    induction demands generalizing round with
    | nil => exact ⟨[], (List.append_nil _).symm, nofun⟩
    | cons demand demands ih =>
      obtain ⟨kept, first, own, sound, places⟩ := keepReserve_kept minStudents round demand sound
      obtain ⟨later, rest, others⟩ := ih _ sound
      refine ⟨kept ++ later, rest.trans (by rw [first, List.append_assoc]), ?_⟩
      refine List.forall_mem_append.mpr ⟨fun entry member => ?_, fun entry member => ?_⟩
      · exact ⟨demand, List.mem_cons_self, own entry member⟩
      · obtain ⟨other, listed, kept⟩ := others entry member
        exact ⟨other, List.mem_cons_of_mem _ listed, places ▸ kept⟩

/-- The students of a slot in two parts: passes that leave no normal student, and the accommodated ones after them. -/
structure Phases (records : List Accommodation) (params : RoomParams) (before middle final : Round)
    (seated granted : List Seating) : Prop where
  passes : ∃ count, Passes params before count middle
  first : Run params.longDurationThreshold before seated middle
  normals : Serves records before.pool.places
    (fun exam student => ∃ demand ∈ before.demands, demand.exam = exam ∧ student ∈ demand.normal) seated
  second : Run params.longDurationThreshold middle granted final
  others : Serves records before.pool.places (fun exam student => ∃ demand ∈ before.demands, demand.exam = exam ∧
    student ∈ (demand.extended ++ demand.alone).map (·.student)) granted
  exams : final.demands.map (·.exam) = before.demands.map (·.exam)

theorem exists_phases {final : Round} (sound : Sound before.pool)
    (timed : ∀ demand ∈ before.demands, Timed records demand)
    (normals : before.seatNormals params before.normalCount = .ok middle)
    (others : middle.demands.foldlM (Round.seatAccommodated params.longDurationThreshold) middle = .ok final) :
    ∃ seated granted, Phases records params before middle final seated granted := by
  obtain ⟨passes, last, run, calm, reached⟩ := exists_last params sound
  obtain rfl := Except.ok.inj (normals.symm.trans (reached _ (Nat.le_refl _)))
  obtain ⟨seated, first, serves, demands⟩ := passes_serve run sound timed (mostUrgent?_none calm)
  rw [demands] at others
  obtain ⟨granted, second, same, rest⟩ := accommodated_serve (first.sound sound)
    (List.forall_mem_map.mpr fun demand member => timed_accommodated (timed demand member)) others
  rw [first.places_eq] at rest
  refine ⟨seated, granted, ⟨passes, run⟩, first, serves, second, rest.congr fun exam student => ?_, ?_⟩
  · simp [accommodated]
  · rw [same, demands, List.map_map]
    rfl

/-- The two parts serve all whom a slot owes a seat. -/
theorem Phases.serve {final : Round} {seated granted : List Seating}
    (phases : Phases records params before middle final seated granted) :
    Serves records before.pool.places
      (fun exam student => ∃ demand ∈ before.demands, demand.exam = exam ∧ student ∈ pending demand)
      (seated ++ granted) := by
  refine (phases.normals.append phases.others).congr fun exam student => ?_
  simp only [pending, List.mem_append, and_or_left, exists_or]

/-- A slot by what its entries are for: its pins, the students its exams still owe a seat to, and reserves. -/
structure Settles (allocator : Allocator) (records : List Accommodation) (pinned : List Seating)
    (blocked : List Block) (slot : Slot) (exams : List Exam) (round start middle final : Round)
    (honoured entries kept : List Seating) : Prop where
  started : allocator.start records blocked slot exams = .ok start
  first : Run allocator.params.longDurationThreshold start honoured middle
  honours : Honours (pinned.filter (·.slot = slot)) start honoured middle
  second : Run allocator.params.longDurationThreshold middle entries final
  serves : Serves records start.pool.places
    (fun exam student => ∃ demand ∈ middle.demands, demand.exam = exam ∧ student ∈ pending demand) entries
  seatings : round.seatings = final.seatings ++ kept
  reserves : ∀ entry ∈ kept, ∃ exam ∈ exams, Kept start.pool.places exam entry

theorem exists_settles (returned : allocator.allocateSlot records pinned blocked slot exams = .ok round) :
    ∃ start middle final honoured entries kept,
      Settles allocator records pinned blocked slot exams round start middle final honoured entries kept := by
  obtain ⟨start, started, returned⟩ := bind_ok returned
  obtain ⟨middle, pins, returned⟩ := bind_ok returned
  obtain ⟨drained, normals, returned⟩ := bind_ok returned
  obtain ⟨final, others, returned⟩ := bind_ok returned
  obtain rfl := pure_ok returned
  obtain ⟨honoured, first, honours⟩ := pins_run (start_sound started) (fun pin member => by
    rw [(start_empty started).1]
    exact of_decide_eq_true (List.mem_filter.mp member).2) pins
  have sound := first.sound (start_sound started)
  obtain ⟨seated, granted, phases⟩ :=
    exists_phases sound (pins_demands timed_drawn pins (start_timed started)) normals others
  have second := phases.first.append phases.second
  have serves := phases.serve
  obtain ⟨kept, seatings, reserves⟩ :=
    keepReserves_kept allocator.params.reserveMinStudents final (second.sound sound)
  rw [first.places_eq] at serves
  rw [second.places_eq, first.places_eq] at reserves
  refine ⟨start, middle, final, honoured, _, kept, started, first, honours, second, serves, seatings, ?_⟩
  intro entry member
  obtain ⟨demand, listed, reserve⟩ := reserves entry member
  have exam : demand.exam ∈ final.demands.map (·.exam) := List.mem_map_of_mem listed
  rw [phases.exams, honours.exams, start_exams started] at exam
  exact ⟨demand.exam, exam, reserve⟩

/-- At the beginning a slot owes a seat to all registrants of its exams. -/
theorem start_owed (started : allocator.start records blocked slot exams = .ok start) :
    (∃ demand ∈ start.demands, demand.exam = exam ∧ student ∈ pending demand) ↔
      exam ∈ exams ∧ student ∈ exam.registrants := by
  have pendings := start_pending started
  rw [← start_exams started]
  constructor
  · rintro ⟨demand, member, rfl, waits⟩
    exact ⟨List.mem_map_of_mem member, (pendings demand member).mem_iff.mp waits⟩
  · rintro ⟨listed, registered⟩
    obtain ⟨demand, member, rfl⟩ := List.mem_map.mp listed
    exact ⟨demand, member, rfl, (pendings demand member).mem_iff.mpr registered⟩

theorem Settles.unpinned {final : Round} {honoured kept : List Seating}
    (settles : Settles allocator records [] blocked slot exams round start middle final honoured entries kept) :
    honoured = [] ∧ middle = start := by
  obtain rfl : honoured = [] := by
    rw [List.eq_nil_iff_forall_not_mem]
    intro entry noted
    obtain ⟨-, pin, present, -⟩ := settles.honours.pinned entry noted
    cases present
  have run := settles.first
  cases run
  exact ⟨rfl, rfl⟩

end Timetable.Proofs.StudentDues
