import Timetable.Proofs.PlanStages
import Timetable.Proofs.SlotRounds
import Timetable.Proofs.StaffExclusions

/-! Every room that needs to be watched is given to somebody or reported as open. A room needs to be
watched where something in it is no reserve; rooms named like the placeholder never are. -/

namespace Timetable.Proofs.WatchedRooms
open Staffing Returned StaffingRuns RoomDuties ExactDuties SeatEntries SeatPool SeatingSteps SlotRounds

variable {setting : Setting} {before after : Progress} {duty : Duty} {duties others : List Duty}
  {seatings : List Seating} {minRooms : Nat} {slot : Slot} {name : RoomName}

def post (duty : Duty) : Slot × Option RoomName := (duty.slot, duty.room)

/-- All that is said about duties: those that were given and those that were not. -/
def decided (invigilations : List Invigilation) (unassigned : List (Slot × Option RoomName)) :
    List (Slot × Option RoomName) :=
  invigilations.map (fun invigilation => (invigilation.slot, invigilation.room)) ++ unassigned

private theorem give_decides {member : Member} {place : Nat} {ownExam : Bool}
    (given : before.give member place duty ownExam = .ok after) :
    (decided after.invigilations after.unassigned).Perm
      (post duty :: decided before.invigilations before.unassigned) := by
  obtain ⟨minutes, -, rfl⟩ := give_ok given
  simp only [decided, List.map_append, List.append_assoc]
  exact List.perm_middle

private theorem step_decides (step : Step setting before duty after) :
    (decided after.invigilations after.unassigned).Perm
      (post duty :: decided before.invigilations before.unassigned) := by
  cases step with
  | own _ given => exact give_decides given
  | other _ given => exact give_decides given
  | left =>
    simp only [decided, Progress.leaveOpen]
    rw [← List.append_assoc]
    exact List.perm_append_singleton _ _

private theorem run_decides (run : StaffingRuns.Run setting before duties after) :
    (decided after.invigilations after.unassigned).Perm
      (duties.map post ++ decided before.invigilations before.unassigned) := by
  induction run with
  | done => exact .refl _
  | next first _ ih =>
    apply ih.trans
    rw [List.map_cons, List.cons_append]
    exact ((step_decides first).append_left _).trans List.perm_middle

private theorem giveSlots_decide {agenda : Agenda Duty}
    (returned : agenda.foldlM (fun progress item => giveSlot setting progress item.2) before = .ok after) :
    (decided after.invigilations after.unassigned).Perm
      (agenda.values.map post ++ decided before.invigilations before.unassigned) := by
  induction agenda generalizing before with
  | nil =>
    cases pure_ok returned
    exact .refl _
  | cons item rest ih =>
    rw [List.foldlM_cons] at returned
    obtain ⟨middle, first, returned⟩ := bind_ok returned
    obtain ⟨order, same, run⟩ := giveSlot_run first
    apply (ih returned).trans
    rw [ScheduledExams.values_cons, List.map_append, List.append_assoc]
    apply ((run_decides run).append_left _).trans
    rw [← List.append_assoc, ← List.append_assoc]
    apply List.Perm.append_right
    apply List.perm_append_comm.trans
    exact (same.map _).append_right _

/-- Every duty is decided once. -/
theorem duties_decided {invigilators : List Invigilator} {config : Config} {scheduled : Agenda Exam}
    {calendar : Calendar} {report : StaffingReport}
    (balanced : Staffing.balance invigilators config seatings scheduled calendar = .ok report) :
    (decided report.invigilations report.unassigned).Perm
      ((Staffing.duties seatings config.invigilation.reserveMinRooms).values.map post) := by
  obtain ⟨setting, progress, staffed⟩ := balance_staffed balanced
  rw [staffed.invigilations_eq, staffed.unassigned_eq]
  have all := giveSlots_decide staffed.given
  rwa [decided, decided, List.map_nil, List.append_nil, List.append_nil] at all

theorem posts_nodup (seatings : List Seating) (minRooms : Nat) :
    ((Staffing.duties seatings minRooms).values.map post).Nodup := by
  rw [Agenda.values, List.map_flatMap, List.nodup_flatMap]
  have here {item : Slot × List Duty} (listed : item ∈ Staffing.duties seatings minRooms)
      {other : Slot × Option RoomName} (posted : other ∈ item.2.map post) : other.1 = item.1 := by
    obtain ⟨duty, member, rfl⟩ := List.mem_map.mp posted
    exact (duties_shift listed).slot_eq duty member
  constructor
  · intro item listed
    have rooms := (duties_shift listed).rooms
    apply List.Nodup.of_map Prod.snd
    rwa [List.map_map]
  · have slots := duties_slots seatings minRooms
    rw [List.Nodup, List.pairwise_map] at slots
    apply slots.imp_of_mem
    intro first second one two apart other posted again
    exact apart ((here one posted).symm.trans (here two again))

private theorem mem_posts : (slot, some name) ∈ (Staffing.duties seatings minRooms).values.map post ↔
    name ≠ Room.placeholder ∧
      ∃ seating ∈ seatings, seating.slot = slot ∧ seating.room = name ∧ seating.reserve = false := by
  constructor
  · intro posted
    obtain ⟨duty, member, same⟩ := List.mem_map.mp posted
    obtain ⟨rfl, room⟩ := Prod.mk.inj same
    obtain ⟨⟨slot, duties⟩, listed, present⟩ := List.mem_flatMap.mp member
    have here := (duties_shift listed).slot_eq duty present
    obtain ⟨seating, planned, ⟨slotted, real, plain⟩, rfl⟩ := exists_duty.mp ⟨duties, listed, duty, present, room⟩
    exact ⟨real, seating, planned, slotted.trans here.symm, rfl, plain⟩
  · intro occupied
    obtain ⟨real, seating, planned, slotted, rfl, plain⟩ := occupied
    obtain ⟨duties, listed, duty, present, room⟩ :=
      exists_duty.mpr ⟨seating, planned, ⟨slotted, real, plain⟩, rfl⟩
    apply List.mem_map.mpr
    refine ⟨duty, List.mem_flatMap.mpr ⟨_, listed, present⟩, ?_⟩
    exact Prod.ext ((duties_shift listed).slot_eq duty present) room

/-- What a report says about a room of a slot. -/
def records (report : StaffingReport) (slot : Slot) (name : RoomName) : Nat :=
  (decided report.invigilations report.unassigned).count (slot, some name)

private theorem records_eq {invigilators : List Invigilator} {config : Config} {scheduled : Agenda Exam}
    {calendar : Calendar} {report : StaffingReport}
    (balanced : Staffing.balance invigilators config seatings scheduled calendar = .ok report)
    (slot : Slot) (name : RoomName) : records report slot name ≤ 1 ∧ (records report slot name = 1 ↔
      name ≠ Room.placeholder ∧
        ∃ seating ∈ seatings, seating.slot = slot ∧ seating.room = name ∧ seating.reserve = false) := by
  have once := posts_nodup seatings config.invigilation.reserveMinRooms
  have atMost := List.nodup_iff_count_le_one.mp once (slot, some name)
  rw [records, (duties_decided balanced).count_eq]
  refine ⟨atMost, ?_⟩
  rw [← @mem_posts seatings config.invigilation.reserveMinRooms, ← List.count_pos_iff]
  omega

/-- Students only sit in a reserve if they were pinned there. -/
theorem reserve_pinned {allocator : Allocator} {agenda : Agenda Exam} {records : List Accommodation}
    {pinned : List Seating} {plan : RoomPlan} {entry : Seating} (named : (allocator.rooms.map (·.name)).Nodup)
    (slots : (agenda.map (·.1)).Nodup) (returned : allocator.allocate agenda records pinned = .ok plan)
    (member : entry ∈ plan.seatings) (reserved : entry.reserve = true) (filled : entry.students ≠ [])
    (real : entry.room ≠ Room.placeholder) : entry ∈ pinned := by
  obtain ⟨exams, blocked, round, -, allocated, -, inside⟩ := entry_round slots returned member
  obtain ⟨start, middle, honoured, later, seats⟩ := exists_seats allocated
  have noted : entry ∈ round.seatings.filter (·.reserve) := List.mem_filter.mpr ⟨inside, reserved⟩
  rw [seats.run.reserves, (start_empty seats.started).2.1, List.filter_nil, List.nil_append,
    List.filter_append, List.mem_append] at noted
  rcases noted with noted | noted
  · have inside := (List.mem_filter.mp noted).1
    have sound := start_sound seats.started
    rcases seats.first.housed sound entry inside with ⟨place, held, room⟩ | ⟨nowhere, -⟩
    · have pins := seats.honours.reserves (start_named seats.started named) place (held.known sound) held
      have chosen : entry ∈ honoured.filter (SeatingPhases.reserveIn place.room.name) :=
        List.mem_filter.mpr ⟨inside, by simp [SeatingPhases.reserveIn, reserved, room]⟩
      rw [pins] at chosen
      exact (List.mem_filter.mp (List.mem_filter.mp chosen).1).1
    · exact absurd nowhere real
  · exact absurd (seats.fills.reserves entry (List.mem_filter.mp noted).1 reserved).1 filled

variable {scheduler : Scheduler} {input : PlanningInput} {config : Config} {outcome : Outcome}

/-- A room of a slot is spoken of at most once in a report. It is spoken of exactly if its name is not
the placeholder's and something in it is no reserve; with students in it only pinned reserves have none
of that. -/
theorem occupied_rooms_are_watched (planned : planWith scheduler input config = .ok outcome)
    (slot : Slot) (name : RoomName) :
    records outcome.staffing slot name ≤ 1 ∧
      (records outcome.staffing slot name = 1 ↔ name ≠ Room.placeholder ∧
        ∃ entry ∈ outcome.rooms.seatings, entry.slot = slot ∧ entry.room = name ∧ entry.reserve = false) ∧
      (name ≠ Room.placeholder →
        (∀ pin ∈ input.pinned, pin.slot = slot → pin.room = name → pin.reserve = true → pin.students = []) →
        (∃ entry ∈ outcome.rooms.seatings, entry.slot = slot ∧ entry.room = name ∧ entry.students ≠ []) →
        records outcome.staffing slot name = 1) := by
  obtain ⟨groups, prepared, planned⟩ := bind_ok planned
  obtain ⟨plan, -, planned⟩ := bind_ok planned
  obtain ⟨rfl, rfl, allocated, balanced⟩ := PlanStages.furnish_ok_iff.mp (mapError_ok planned)
  obtain ⟨atMost, watched⟩ := records_eq balanced slot name
  refine ⟨atMost, watched, ?_⟩
  intro real unpinned occupied
  obtain ⟨entry, member, here, room, filled⟩ := occupied
  apply watched.mpr
  refine ⟨real, entry, member, here, room, ?_⟩
  rw [← Bool.not_eq_true]
  intro reserved
  have named := ofConfig_named (InputChecks.prepare_ok_iff.mp prepared).1.distinct_rooms config
  have pin := reserve_pinned named (ScheduledExams.examsNeedingRooms_slots ..) allocated member reserved
    filled (room ▸ real)
  exact filled (unpinned entry pin here room reserved)

theorem both_students_are_watched :
    ∃ outcome, planWith .firstAllowed PlanStages.twoDays (PlanStages.briefly 0) = .ok outcome ∧
      outcome.rooms = PlanStages.twoRooms ∧ records outcome.staffing ⟨1, 1⟩ "R2" = 1 := by
  have rooms : (planWith .firstAllowed PlanStages.twoDays (PlanStages.briefly 0)).toOption.map (·.rooms)
      = some PlanStages.twoRooms := by decide +kernel
  cases planned : planWith .firstAllowed PlanStages.twoDays (PlanStages.briefly 0) with
  | error =>
    rw [planned] at rooms
    cases rooms
  | ok outcome =>
    rw [planned] at rooms
    have same : outcome.rooms = PlanStages.twoRooms := Option.some.inj rooms
    have watched := (occupied_rooms_are_watched planned ⟨1, 1⟩ "R2").2.2 (by decide) (by decide)
    rw [same] at watched
    exact ⟨outcome, rfl, same, watched (by decide)⟩

def misnamed : PlanningInput where
  period := ⟨[⟨⟨1, 1⟩, ⟨⟨2025, 7, 1⟩, ⟨8, 30, 0, 0⟩⟩⟩], []⟩
  exams := [
    { ancode := 1, title := "", examiner := "prof", duration := 90, category := .regular,
      registrations := [⟨"IF", ["a"]⟩], constraints := {} }]
  accommodations := []
  rooms := [⟨"No Room", 1, false, false, false, false⟩]
  invigilators := []
  committed := []
  pinned := []

/-- The student has a seat, and nobody is asked to watch the room. -/
theorem misnamed_room_is_not_watched :
    ∃ room ∈ misnamed.rooms, ∃ outcome, planWith .firstAllowed misnamed {} = .ok outcome ∧
      outcome.rooms = ⟨[⟨⟨1, 1⟩, room.name, 1, 90, ["a"], false, false⟩], []⟩ ∧
      records outcome.staffing ⟨1, 1⟩ room.name = 0 := by
  refine ⟨_, List.mem_singleton_self _, ⟨[⟨1, [1], 1, 90, [⟨1, 1⟩], [], .scheduled⟩],
    .ofPlacements [⟨1, ⟨1, 1⟩⟩], _, ⟨[], [], 0, 0, []⟩⟩, ?_, rfl, rfl⟩
  decide +kernel

end Timetable.Proofs.WatchedRooms
