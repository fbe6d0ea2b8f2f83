import Timetable.Proofs.StudentDues

/-! How long students sit. The minutes and the mark of an entry are part of its key, so a student who is put into
an entry with others has them all the same. -/

namespace Timetable.Proofs.SittingTimes
open SeatDemands SeatEntries SeatPool SeatingSteps SlotRounds SeatReasons SeatingReturns SeatedStudents ClosedRooms
  StudentDues Returned

variable {records : List Accommodation} {rooms : List Room} {config : Config} {agenda : Agenda Exam} {plan : RoomPlan}
  {exams : List Exam} {exam : Exam} {entry first second : Seating} {student : StudentId} {places : List Place}
  {slot : Slot} {allocator : Allocator} {blocked : List Block} {start round : Round} {record : Accommodation}

/-- What an entry is to a student of an exam: the minutes they are granted, and a mark where they have a room and
are granted anything. -/
structure Given (records : List Accommodation) (places : List Place) (exam : Exam) (student : StudentId)
    (entry : Seating) : Prop where
  ancode : entry.ancode = exam.ancode
  minutes : entry.duration = minutesOf records exam student
  marked : entry.accommodated = true ↔
    (∃ place ∈ places, place.room.name = entry.room) ∧ reasonFor records student ≠ .noCompatibleRoom

theorem Given.of_key (same : key first = key second) (given : Given records places exam student first) :
    Given records places exam student second := by
  have given : Given records places exam student (key first) := ⟨given.ancode, given.minutes, given.marked⟩
  rw [same] at given
  exact ⟨given.ancode, given.minutes, given.marked⟩

private theorem given_of_due (real : ∀ place ∈ places, place.room.name ≠ Room.placeholder)
    (due : Due records places exam entry) (seated : student ∈ entry.students) :
    Given records places exam student entry := by
  refine ⟨due.ancode, due.minutes student seated, ?_⟩
  cases due.placed with
  | seated known room _ marked =>
    rw [marked student seated]
    exact (and_iff_right ⟨_, known, room.symm⟩).symm
  | away nowhere unmarked =>
    refine iff_of_false (by simp [unmarked]) ?_
    rintro ⟨⟨place, known, room⟩, -⟩
    exact real place known (room.trans nowhere)

private theorem slot_given (real : ∀ room ∈ allocator.rooms, room.name ≠ Room.placeholder)
    (returned : allocator.allocateSlot records [] blocked slot exams = .ok round) :
    (∀ exam ∈ exams, ∀ student ∈ exam.registrants, ∃ entry ∈ round.seatings, student ∈ entry.students ∧
      Given records (Place.ofRooms allocator.rooms) exam student entry) ∧
    ∀ entry ∈ round.seatings, ∀ student ∈ entry.students, ∃ exam ∈ exams, student ∈ exam.registrants ∧
      Given records (Place.ofRooms allocator.rooms) exam student entry := by
  obtain ⟨start, middle, final, honoured, entries, kept, settles⟩ := exists_settles returned
  obtain ⟨rfl, rfl⟩ := settles.unpinned
  have serves := settles.serves.congr fun exam student => (start_owed settles.started).symm
  rw [start_places settles.started] at serves
  have named : ∀ place ∈ Place.ofRooms allocator.rooms, place.room.name ≠ Room.placeholder :=
    fun place known => real place.room (List.mem_of_getElem? (mem_places.mp known))
  constructor
  · intro exam listed student registered
    obtain ⟨logged, noted, due, seated⟩ := serves.all exam student ⟨listed, registered⟩
    obtain ⟨entry, member, same, present⟩ := settles.second.exists_noted noted seated
    refine ⟨entry, ?_, present, (given_of_due named due seated).of_key same.symm⟩
    rw [settles.seatings]
    exact List.mem_append_left _ member
  · rw [settles.seatings, List.forall_mem_append]
    constructor
    · refine settles.second.seatings_all (fun first second same one other => ?_) (fun entry noted => ?_) ?_
      · refine List.forall_mem_append.mpr ⟨fun student seated => ?_, fun student seated => ?_⟩
        · obtain ⟨exam, listed, registered, given⟩ := one student seated
          exact ⟨exam, listed, registered, given.of_key (key_with first _).symm⟩
        · obtain ⟨exam, listed, registered, given⟩ := other student seated
          exact ⟨exam, listed, registered, given.of_key same.symm⟩
      · intro student seated
        obtain ⟨exam, due, owed⟩ := serves.each entry noted
        obtain ⟨listed, registered⟩ := owed student seated
        exact ⟨exam, listed, registered, given_of_due named due seated⟩
      · rw [(start_empty settles.started).2.1]
        exact nofun
    · intro entry reserved student seated
      obtain ⟨exam, -, reserve⟩ := settles.reserves entry reserved
      rw [reserve.empty] at seated
      cases seated

/-- What an entry is to a student of an exam, in terms of the last record of the student: without additional time
the minutes of the exam, else those with the additional time, rounded up and cut off; and it is marked exactly if
it stands for a room and the record grants something. -/
structure Timely (records : List Accommodation) (rooms : List Room) (exam : Exam) (student : StudentId)
    (entry : Seating) : Prop where
  plain : (∀ record, Accommodation.of? records student = some record → record.extraPercent = 0) →
    entry.duration = exam.duration
  extended : ∀ record, Accommodation.of? records student = some record → 0 < record.extraPercent →
    entry.duration = min (roundedUp (exam.duration * (100 + record.extraPercent))) (numberLimit - 1)
  marked : entry.accommodated = true ↔ (∃ room ∈ rooms, room.name = entry.room) ∧
    ∃ record, Accommodation.of? records student = some record ∧
      (record.needsRoomAlone = true ∨ 0 < record.extraPercent)

private theorem minutesOf_plain (represented : exam.duration < numberLimit)
    (plain : ∀ record, Accommodation.of? records student = some record → record.extraPercent = 0) :
    minutesOf records exam student = exam.duration := by
  cases found : Accommodation.of? records student with
  | none => simp [minutesOf, Grant.of, found, percent?]
  | some record =>
    have none := plain record found
    cases alone : record.needsRoomAlone
    · simp [minutesOf, Grant.of, found, alone, none, percent?]
    · simp only [minutesOf, Grant.of, found, alone, if_true, none, percent?, roundedUp_eq]
      omega

private theorem minutesOf_extended (found : Accommodation.of? records student = some record)
    (extra : 0 < record.extraPercent) : minutesOf records exam student
      = min (roundedUp (exam.duration * (100 + record.extraPercent))) (numberLimit - 1) := by
  cases alone : record.needsRoomAlone <;> simp [minutesOf, Grant.of, found, alone, extra, percent?]

private theorem granted_iff : reasonFor records student ≠ .noCompatibleRoom ↔
    ∃ record, Accommodation.of? records student = some record ∧
      (record.needsRoomAlone = true ∨ 0 < record.extraPercent) := by
  cases found : Accommodation.of? records student with
  | none => simp [reasonFor, Grant.of, found]
  | some record =>
    cases alone : record.needsRoomAlone <;> by_cases extra : 0 < record.extraPercent <;>
      simp [reasonFor, Grant.of, found, alone, extra]

private theorem Given.timely
    (given : Given records (Place.ofRooms (Allocator.inventory rooms config.roomOverrides)) exam student entry)
    (represented : exam.duration < numberLimit) : Timely records rooms exam student entry where
  plain none := given.minutes.trans (minutesOf_plain represented none)
  extended record found extra := given.minutes.trans (minutesOf_extended found extra)
  marked := by
    rw [given.marked, granted_iff, exists_place_iff]

/-- Everybody gets their time: without pins each student of each exam, whose minutes are a number of a document,
stands in an entry of the exam with the minutes their last record grants, marked exactly if it is for a room and
the record grants anything; and nobody stands in an entry of which this does not hold. -/
theorem everybody_gets_their_time (real : ∀ room ∈ rooms, room.name ≠ Room.placeholder)
    (represented : ∀ item ∈ agenda, ∀ exam ∈ item.2, exam.duration < numberLimit)
    (slots : (agenda.map (·.1)).Nodup)
    (returned : (Allocator.ofConfig rooms config).allocate agenda records [] = .ok plan) :
    (∀ slot exams, (slot, exams) ∈ agenda → ∀ exam ∈ exams, ∀ student ∈ exam.registrants,
      ∃ entry ∈ plan.seatings, entry.slot = slot ∧ entry.ancode = exam.ancode ∧ student ∈ entry.students ∧
        Timely records rooms exam student entry) ∧
    ∀ entry ∈ plan.seatings, ∀ student ∈ entry.students, ∃ exams, (entry.slot, exams) ∈ agenda ∧
      ∃ exam ∈ exams, exam.ancode = entry.ancode ∧ student ∈ exam.registrants ∧
        Timely records rooms exam student entry := by
  have names := ofConfig_real real config
  constructor
  · intro slot exams present exam listed student registered
    obtain ⟨blocked, round, allocated, entries, -⟩ := exists_round slots returned present
    obtain ⟨entry, inside, seated, given⟩ := (slot_given names allocated).1 exam listed student registered
    rw [← entries] at inside
    obtain ⟨member, here⟩ := List.mem_filter.mp inside
    exact ⟨entry, member, of_decide_eq_true here, given.ancode, seated, given.timely (represented _ present exam listed)⟩
  · intro entry member student seated
    obtain ⟨exams, blocked, round, present, allocated, -, inside⟩ := entry_round slots returned member
    obtain ⟨exam, listed, registered, given⟩ := (slot_given names allocated).2 entry inside student seated
    exact ⟨exams, present, exam, listed, given.ancode.symm, registered,
      given.timely (represented _ present exam listed)⟩

/-- Three students of an exam: one with a record that is replaced by another, one with none, and one who needs a
room alone and has no more time. -/
def threeGrants : List Accommodation := [⟨"a", 50, false⟩, ⟨"c", 0, true⟩, ⟨"a", 25, false⟩]

def roomAndShelter : List Room := [twoSeats, { twoSeats with name := "R1", accessible := true }]

theorem last_record_counts :
    ∃ plan, (Allocator.ofConfig roomAndShelter {}).allocate [(⟨1, 1⟩, [threeRegistrants])] threeGrants [] = .ok plan ∧
      (∀ student ∈ threeRegistrants.registrants, ∃ entry ∈ plan.seatings, entry.slot = ⟨1, 1⟩ ∧ entry.ancode = 1 ∧
        student ∈ entry.students ∧ Timely threeGrants roomAndShelter threeRegistrants student entry) ∧
      ∀ entry ∈ plan.seatings, ∀ student ∈ entry.students,
        ∃ exams, (entry.slot, exams) ∈ [((⟨1, 1⟩ : Slot), [threeRegistrants])] ∧
          ∃ exam ∈ exams, exam.ancode = entry.ancode ∧ student ∈ exam.registrants ∧
            Timely threeGrants roomAndShelter exam student entry := by
  have real : ∀ room ∈ roomAndShelter, room.name ≠ Room.placeholder := by decide
  have represented : ∀ item ∈ [((⟨1, 1⟩ : Slot), [threeRegistrants])], ∀ exam ∈ item.2,
      exam.duration < numberLimit := by decide
  have slots : ([((⟨1, 1⟩ : Slot), [threeRegistrants])].map (·.1)).Nodup := by decide
  obtain ⟨plan, returned⟩ : ∃ plan, (Allocator.ofConfig roomAndShelter {}).allocate
      [(⟨1, 1⟩, [threeRegistrants])] threeGrants [] = .ok plan := ⟨_, rfl⟩
  obtain ⟨seated, timely⟩ := everybody_gets_their_time real represented slots returned
  exact ⟨plan, returned, seated ⟨1, 1⟩ [threeRegistrants] List.mem_cons_self threeRegistrants List.mem_cons_self,
    timely⟩

end Timetable.Proofs.SittingTimes
