import Timetable.Proofs.SlotRounds

/-! Nobody is lost while rooms are allocated. Every registrant is noted for their exam, those without
a seat under the placeholder, and nobody else is who is not pinned. -/

namespace Timetable.Proofs.SeatedStudents
open SeatDemands SeatEntries SeatPool SeatingSteps SeatingPhases SlotRounds Returned

variable {allocator : Allocator} {records : List Accommodation} {pinned : List Seating}
  {blocked : List Block} {slot : Slot} {exams : List Exam} {exam : Exam} {agenda : Agenda Exam}
  {plan : RoomPlan} {start middle round before after : Round} {honoured entries : List Seating}
  {entry : Seating} {student : StudentId} {ancode : Ancode} {threshold : Nat}

def missing (ancode : Ancode) (shortfalls : List Shortfall) : Nat :=
  total ((shortfalls.filter (·.ancode = ancode)).map (·.students))

def unplaced (ancode : Ancode) (entry : Seating) : Bool := entry.isPlaceholder && ofExam ancode entry

private theorem missing_append (first second : List Shortfall) :
    missing ancode (first ++ second) = missing ancode first + missing ancode second := by
  simp only [missing, List.filter_append, List.map_append, Ordering.total_append]

/-- Everybody reported without a seat is noted under the placeholder, as long as no room has its name. -/
def Reported (round : Round) : Prop :=
  ∀ ancode, missing ancode round.shortfalls = (studentsOf (unplaced ancode) round.seatings).length

theorem Step.reported (step : Step threshold before entry after) (sound : Sound before.pool)
    (real : ∀ place ∈ before.pool.places, place.room.name ≠ Room.placeholder)
    (reported : Reported before) : Reported after := by
  intro ancode
  have listed : (studentsOf (unplaced ancode) after.seatings).length = _ :=
    (step.students fun _ => rfl).length_eq
  rw [listed, List.length_append, ← reported ancode]
  have placed {place : Place} (known : place ∈ before.pool.places)
      (room : entry.room = place.room.name) : studentsOf (unplaced ancode) [entry] = [] := by
    refine studentsOf_other ?_
    simp [unplaced, Seating.isPlaceholder, room, real place known]
  cases step with
  | seat offered _ _ room => rw [placed (offered.known sound) room]; rfl
  | alone free _ _ _ room => rw [placed (sound.free_known _ free) room]; rfl
  | echo offered _ room => rw [placed (offered.known sound) room]; rfl
  | keep free _ room => rw [placed (sound.free_known _ free) room]; rfl
  | short _ room =>
    rw [missing_append]
    by_cases same : entry.ancode = ancode
    · rw [studentsOf_chosen (by simp [unplaced, Seating.isPlaceholder, ofExam, room, same])]
      simp [missing, same]
    · rw [studentsOf_other (by simp [unplaced, ofExam, same])]
      simp [missing, same]

theorem Run.reported (run : Run threshold before entries after) (sound : Sound before.pool)
    (real : ∀ place ∈ before.pool.places, place.room.name ≠ Room.placeholder)
    (reported : Reported before) : Reported after := by
  induction run with
  | done => exact reported
  | next first _ ih =>
    exact ih (first.sound sound) (first.places_eq ▸ real) (Step.reported first sound real reported)

section
variable (seats : Seats allocator records pinned blocked slot exams round start middle honoured entries)
include seats

private theorem round_reported (real : ∀ room ∈ allocator.rooms, room.name ≠ Room.placeholder) :
    Reported round := by
  obtain ⟨-, seatings, shortfalls, -⟩ := start_empty seats.started
  refine Run.reported seats.run (start_sound seats.started) ?_ ?_
  · intro place known
    rw [start_places seats.started] at known
    refine real place.room ?_
    rw [← ofRooms_rooms allocator.rooms]
    exact List.mem_map_of_mem known
  · intro ancode
    rw [seatings, shortfalls]
    rfl

theorem mem_remaining_start :
    student ∈ remaining ancode start.demands ↔
      ∃ exam ∈ exams, exam.ancode = ancode ∧ student ∈ exam.registrants := by
  have pendings := start_pending seats.started
  rw [mem_remaining, ← start_exams seats.started]
  constructor
  · rintro ⟨demand, member, same, waiting⟩
    exact ⟨_, List.mem_map_of_mem member, same, (pendings demand member).mem_iff.mp waiting⟩
  · rintro ⟨exam, listed, same, registered⟩
    obtain ⟨demand, member, rfl⟩ := List.mem_map.mp listed
    exact ⟨demand, member, same, (pendings demand member).mem_iff.mpr registered⟩

theorem remaining_start (distinct : (exams.map (·.ancode)).Nodup) (member : exam ∈ exams) :
    (remaining exam.ancode start.demands).Perm exam.registrants := by
  rw [← start_exams seats.started] at member distinct
  obtain ⟨demand, present, rfl⟩ := List.mem_map.mp member
  have ancodes : (start.demands.map (·.exam.ancode)).Nodup := by
    simpa [Function.comp_def] using distinct
  rw [remaining_eq ancodes present]
  exact start_pending seats.started demand present

theorem registrant_seated (member : exam ∈ exams) (registered : student ∈ exam.registrants) :
    student ∈ studentsOf (ofExam exam.ancode) round.seatings := by
  rw [(seats.students fun _ => rfl).mem_iff, List.mem_append]
  have waiting := (mem_remaining_start seats).mpr ⟨exam, member, rfl, registered⟩
  rcases seats.honours.covered _ student waiting with waiting | seated
  · exact .inr ((seats.fills.students exam.ancode).mem_iff.mp waiting)
  · exact .inl seated

private theorem registrant_of_filled (filled : student ∈ studentsOf (ofExam ancode) entries) :
    ∃ exam ∈ exams, exam.ancode = ancode ∧ student ∈ exam.registrants :=
  (mem_remaining_start seats).mp
    (seats.honours.left _ student ((seats.fills.students ancode).mem_iff.mpr filled))

theorem logged_exam (noted : entry ∈ honoured ++ entries) : ∃ exam ∈ exams, exam.ancode = entry.ancode := by
  rcases List.mem_append.mp noted with noted | noted
  · rw [← start_exams seats.started]
    exact (seats.honours.pinned entry noted).1
  · by_cases reserved : entry.reserve = true
    · obtain ⟨-, -, demand, listed, same⟩ := seats.fills.reserves entry noted reserved
      rw [← start_exams seats.started, ← seats.honours.exams]
      exact ⟨demand.exam, List.mem_map_of_mem listed, same⟩
    · obtain ⟨student, seated⟩ := List.exists_mem_of_ne_nil _
        (seats.fills.filled entry noted (by simpa using reserved))
      obtain ⟨exam, member, same, -⟩ := registrant_of_filled seats
        (mem_studentsOf.mpr ⟨entry, noted, decide_eq_true rfl, seated⟩)
      exact ⟨exam, member, same⟩

private theorem logged_students (noted : entry ∈ honoured ++ entries) (seated : student ∈ entry.students) :
    (∃ exam ∈ exams, exam.ancode = entry.ancode ∧ student ∈ exam.registrants) ∨
      ∃ pin ∈ pinned, pin.slot = slot ∧ pin.ancode = entry.ancode ∧ student ∈ pin.students := by
  rcases List.mem_append.mp noted with noted | noted
  · obtain ⟨-, pin, member, same, allowed⟩ := seats.honours.pinned entry noted
    obtain ⟨present, here⟩ := List.mem_filter.mp member
    rcases allowed student seated with listed | waiting
    · exact .inr ⟨pin, present, of_decide_eq_true here, (ancode_of_key same).symm, listed⟩
    · exact .inl ((mem_remaining_start seats).mp waiting)
  · exact .inl (registrant_of_filled seats
      (mem_studentsOf.mpr ⟨entry, noted, decide_eq_true rfl, seated⟩))

private theorem round_exam (member : entry ∈ round.seatings) : ∃ exam ∈ exams, exam.ancode = entry.ancode := by
  obtain ⟨logged, noted, same⟩ := seats.exists_logged member
  obtain ⟨exam, listed, equal⟩ := logged_exam seats noted
  exact ⟨exam, listed, equal.trans (ancode_of_key same)⟩

private theorem round_students (member : entry ∈ round.seatings) (seated : student ∈ entry.students) :
    (∃ exam ∈ exams, exam.ancode = entry.ancode ∧ student ∈ exam.registrants) ∨
      ∃ pin ∈ pinned, pin.slot = slot ∧ pin.ancode = entry.ancode ∧ student ∈ pin.students := by
  have noted : student ∈ studentsOf (fun other => key other = key entry) round.seatings :=
    mem_studentsOf.mpr ⟨entry, member, decide_eq_true rfl, seated⟩
  rw [(seats.students fun _ => rfl).mem_iff, ← studentsOf_append] at noted
  obtain ⟨logged, noted, same, present⟩ := mem_studentsOf.mp noted
  have ancode : logged.ancode = entry.ancode := ancode_of_key (of_decide_eq_true same)
  exact ancode ▸ logged_students seats noted present

theorem unpinned_empty (unpinned : pinned = []) : honoured = [] := by
  rw [List.eq_nil_iff_forall_not_mem]
  intro entry noted
  obtain ⟨-, pin, present, -⟩ := seats.honours.pinned entry noted
  simp [unpinned] at present

/-- Without pins the registrants of an exam are the students noted for it, each once. -/
theorem round_registrants (unpinned : pinned = []) (distinct : (exams.map (·.ancode)).Nodup)
    (member : exam ∈ exams) :
    (studentsOf (ofExam exam.ancode) round.seatings).Perm exam.registrants := by
  obtain rfl := unpinned_empty seats unpinned
  have run := seats.first
  cases run
  refine (seats.students fun _ => rfl).trans ?_
  rw [studentsOf_nil, List.nil_append]
  exact (seats.fills.students exam.ancode).symm.trans (remaining_start seats distinct member)

end

def inSlot (slot : Slot) (ancode : Ancode) (entry : Seating) : Bool :=
  entry.slot = slot && ofExam ancode entry

def unplacedIn (slot : Slot) (ancode : Ancode) (entry : Seating) : Bool :=
  entry.slot = slot && unplaced ancode entry

theorem inSlot_slot (ancode : Ancode) (entry : Seating) :
    inSlot slot ancode entry = (ofExam ancode entry && decide (entry.slot = slot)) :=
  Bool.and_comm _ _

private theorem unplacedIn_slot (ancode : Ancode) (entry : Seating) :
    unplacedIn slot ancode entry = (unplaced ancode entry && decide (entry.slot = slot)) :=
  Bool.and_comm _ _

theorem seating_listed (slots : (agenda.map (·.1)).Nodup)
    (returned : allocator.allocateFrom records pinned blocked agenda = .ok plan)
    (member : entry ∈ plan.seatings) :
    ∃ exams, (entry.slot, exams) ∈ agenda ∧ ∃ exam ∈ exams, exam.ancode = entry.ancode := by
  obtain ⟨exams, blocked, round, present, allocated, -, inside⟩ := entry_round slots returned member
  obtain ⟨_, _, _, _, seats⟩ := exists_seats allocated
  exact ⟨exams, present, round_exam seats inside⟩

/-- Every registrant of every exam is noted in the slot of the exam. Only students that are pinned may
be noted besides or twice, and as many are reported without a seat as stand under the placeholder. -/
theorem nobody_is_lost {rooms : List Room} {config : Config}
    (real : ∀ room ∈ rooms, room.name ≠ Room.placeholder) (slots : (agenda.map (·.1)).Nodup)
    (distinct : ∀ item ∈ agenda, (item.2.map (·.ancode)).Nodup)
    (returned : (Allocator.ofConfig rooms config).allocate agenda records pinned = .ok plan) :
    (∀ entry ∈ plan.seatings, ∃ exams, (entry.slot, exams) ∈ agenda ∧
      ∃ exam ∈ exams, exam.ancode = entry.ancode) ∧
    ∀ slot exams, (slot, exams) ∈ agenda → ∀ exam ∈ exams,
      (∀ student ∈ exam.registrants, ∃ entry ∈ plan.seatings,
        entry.slot = slot ∧ entry.ancode = exam.ancode ∧ student ∈ entry.students) ∧
      (∀ entry ∈ plan.seatings, entry.slot = slot → entry.ancode = exam.ancode →
        ∀ student ∈ entry.students, student ∈ exam.registrants ∨
          ∃ pin ∈ pinned, pin.slot = slot ∧ pin.ancode = exam.ancode ∧ student ∈ pin.students) ∧
      (pinned = [] → ∀ student ∈ exam.registrants,
        (studentsOf (inSlot slot exam.ancode) plan.seatings).count student = 1) ∧
      missing exam.ancode (plan.shortfalls.filter (·.slot = slot))
        = (studentsOf (unplacedIn slot exam.ancode) plan.seatings).length := by
  have names : ∀ room ∈ (Allocator.ofConfig rooms config).rooms, room.name ≠ Room.placeholder := by
    intro room member
    have listed := (inventory_names rooms config.roomOverrides).mem_iff.mp (List.mem_map_of_mem member)
    obtain ⟨other, present, same⟩ := List.mem_map.mp listed
    exact same ▸ real other present
  constructor
  · exact fun entry member => seating_listed slots returned member
  · intro slot exams present exam member
    obtain ⟨blocked, round, allocated, entries, shortfalls⟩ := exists_round slots returned present
    obtain ⟨_, _, _, _, seats⟩ := exists_seats allocated
    have ancodes := distinct _ present
    refine ⟨?_, ?_, ?_, ?_⟩
    · intro student registered
      obtain ⟨entry, noted, same, seated⟩ := mem_studentsOf.mp (registrant_seated seats member registered)
      rw [← entries] at noted
      obtain ⟨noted, here⟩ := List.mem_filter.mp noted
      exact ⟨entry, noted, of_decide_eq_true here, of_decide_eq_true same, seated⟩
    · intro entry noted here same student seated
      have inside : entry ∈ round.seatings := by
        rw [← entries]
        exact List.mem_filter.mpr ⟨noted, by simpa using here⟩
      rcases round_students seats inside seated with ⟨other, listed, equal, registered⟩ | allowed
      · rw [Lookups.eq_of_key ancodes listed member (equal.trans same)] at registered
        exact .inl registered
      · exact .inr (same ▸ allowed)
    · intro unpinned student registered
      rw [studentsOf_slot (inSlot_slot exam.ancode), entries,
        (round_registrants seats unpinned ancodes member).count_eq]
      exact List.count_eq_one_of_mem (Ordering.eraseDups_nodup _) registered
    · rw [studentsOf_slot (unplacedIn_slot exam.ancode), entries, shortfalls]
      exact round_reported seats names exam.ancode

def twoSeats : Room :=
  { name := "R2", seats := 2, lab := false, restrictedSoftware := false, sockets := false,
    accessible := false }

def threeRegistrants : Exam :=
  { ancode := 1, title := "", examiner := "prof", duration := 90, category := .regular,
    registrations := [⟨"IF", ["a", "b"]⟩, ⟨"DC", ["c", "a"]⟩], constraints := {} }

theorem third_registrant_is_kept :
    ∃ plan, (Allocator.ofConfig [twoSeats] {}).allocate [(⟨1, 1⟩, [threeRegistrants])] [] [] = .ok plan ∧
      (∀ student ∈ threeRegistrants.registrants, ∃ entry ∈ plan.seatings,
        entry.slot = ⟨1, 1⟩ ∧ entry.ancode = 1 ∧ student ∈ entry.students) ∧
      (∀ student ∈ threeRegistrants.registrants,
        (studentsOf (inSlot ⟨1, 1⟩ 1) plan.seatings).count student = 1) ∧
      missing 1 (plan.shortfalls.filter (·.slot = ⟨1, 1⟩))
        = (studentsOf (unplacedIn ⟨1, 1⟩ 1) plan.seatings).length := by
  have real : ∀ room ∈ [twoSeats], room.name ≠ Room.placeholder := by decide
  have slots : ([((⟨1, 1⟩ : Slot), [threeRegistrants])].map (·.1)).Nodup := by decide
  have distinct : ∀ item ∈ [((⟨1, 1⟩ : Slot), [threeRegistrants])], (item.2.map (·.ancode)).Nodup := by
    decide
  obtain ⟨plan, returned⟩ : ∃ plan,
      (Allocator.ofConfig [twoSeats] {}).allocate [(⟨1, 1⟩, [threeRegistrants])] [] [] = .ok plan :=
    ⟨_, rfl⟩
  obtain ⟨seated, -, once, reported⟩ := (nobody_is_lost real slots distinct returned).2 ⟨1, 1⟩
    [threeRegistrants] List.mem_cons_self threeRegistrants List.mem_cons_self
  exact ⟨plan, returned, seated, once rfl, reported⟩

end Timetable.Proofs.SeatedStudents
