import Timetable.Proofs.ExactDuties
import Timetable.Proofs.StaffExclusions

/-! Examiners watch their own rooms wherever they can. A room goes to the first of its examiners who is free, and
while examiners are asked whoever is busy watches an own exam. So one who could watch a room and does not either
finds another examiner there or watches another room of their own. -/

namespace Timetable.Proofs.OwnRooms
open Staffing Returned StaffingRuns StaffExclusions RoomDuties ExactDuties

variable {setting : Setting} {before after progress : Progress} {duty : Duty} {duties others : List Duty}
  {member : Member} {place : Nat} {slot : Slot} {ancode : Ancode} {room : RoomName} {invigilation : Invigilation}
  {invigilators : List Invigilator} {config : Config} {seatings : List Seating} {scheduled : Agenda Exam}
  {calendar : Calendar} {report : StaffingReport}

def Own (slot : Slot) (invigilation : Invigilation) : Prop :=
  invigilation.slot = slot ∧ invigilation.ownExam = true

structure CouldWatch (setting : Setting) (slot : Slot) (ancode : Ancode) (member : Member) (place : Nat) : Prop where
  single : (roomsOf setting.seatings slot ancode).length = 1
  examiner : examinerOf? setting.scheduled ancode = some member.id
  pooled : memberOf? setting.members member.id = some (member, place)
  available : member.isAvailable slot (setting.calendar.dateOf? slot) = true

theorem CouldWatch.busy {busy : List Nat} (could : CouldWatch setting duty.slot ancode member place)
    (inside : ancode ∈ duty.exams) (roomed : duty.room ≠ none) (nobody : ownInvigilator? setting busy duty = none) :
    place ∈ busy := by
  apply Classical.byContradiction
  intro idle
  have found : examinerFor? setting busy duty.slot ancode = some (member, place) :=
    examinerFor?_eq_some.mpr ⟨could.single, member.id, could.examiner, could.pooled, idle, could.available⟩
  unfold ownInvigilator? at nobody
  split at nobody
  next nowhere => exact roomed nowhere
  next =>
    rw [List.findSome?_eq_none_iff.mp nobody ancode inside] at found
    cases found

/-- What becomes of the duty of a room: an examiner takes it, or all who could take it have taken another. -/
def Settled (setting : Setting) (slot : Slot) (invigilations : List Invigilation) (duty : Duty) : Prop :=
  (∃ invigilation ∈ invigilations, Own slot invigilation ∧ invigilation.room = duty.room) ∨
    ∀ ancode ∈ duty.exams, ∀ member place, CouldWatch setting slot ancode member place →
      ∃ invigilation ∈ invigilations, Own slot invigilation ∧ invigilation.invigilator = member.id

theorem Settled.mono {earlier later : List Invigilation} (settled : Settled setting slot earlier duty)
    (grown : earlier ⊆ later) : Settled setting slot later duty := by
  cases settled with
  | inl taken =>
    obtain ⟨invigilation, noted, same⟩ := taken
    exact .inl ⟨invigilation, grown noted, same⟩
  | inr passed =>
    right
    intro ancode inside member place could
    obtain ⟨invigilation, noted, same⟩ := passed ancode inside member place could
    exact ⟨invigilation, grown noted, same⟩

private theorem giveOwn_settles (here : ∀ duty ∈ duties, duty.slot = slot)
    (occupied : Occupied setting (Own slot) before)
    (returned : giveOwn setting before duties = .ok (after, others)) :
    before.invigilations ⊆ after.invigilations ∧
      ∀ duty ∈ duties, duty.room ≠ none → Settled setting slot after.invigilations duty := by
  induction duties generalizing before others with
  | nil =>
    cases returned
    exact ⟨List.Subset.refl _, nofun⟩
  | cons duty rest ih =>
    rw [List.forall_mem_cons] at here ⊢
    unfold giveOwn at returned
    split at returned
    next member place chosen =>
      obtain ⟨middle, given, returned⟩ := bind_ok returned
      have suited : Own slot ⟨duty.slot, duty.room, member.id, duty.duration, true⟩ := ⟨here.1, rfl⟩
      obtain ⟨grown, settled⟩ :=
        ih here.2 (give_occupied occupied (ownInvigilator?_listed chosen) suited given) returned
      refine ⟨List.Subset.trans (Step.own chosen given).invigilations_subset grown, fun _ => .inl ?_, settled⟩
      obtain ⟨minutes, -, rfl⟩ := give_ok given
      exact ⟨_, grown (List.mem_append_right _ (List.mem_singleton_self _)), suited, rfl⟩
    next nobody =>
      obtain ⟨⟨progress, remaining⟩, first, returned⟩ := bind_ok returned
      cases pure_ok returned
      obtain ⟨grown, settled⟩ := ih here.2 occupied first
      refine ⟨grown, fun roomed => .inr ?_, settled⟩
      intro ancode inside member place could
      rw [← here.1] at could
      have busy := could.busy inside roomed nobody
      obtain ⟨invigilation, noted, same, own⟩ :=
        occupied place busy member (memberOf?_spec could.pooled).1
      exact ⟨invigilation, grown noted, own, same⟩

private theorem giveSlot_settles (here : ∀ duty ∈ duties, duty.slot = slot)
    (returned : giveSlot setting before duties = .ok after) (listed : duty ∈ duties) (roomed : duty.room ≠ none) :
    Settled setting slot after.invigilations duty := by
  obtain ⟨⟨middle, others⟩, owned, returned⟩ := bind_ok returned
  obtain ⟨-, settled⟩ := giveOwn_settles here (occupied_idle _ _ before) owned
  exact (settled duty listed roomed).mono (giveOpen_run returned).invigilations_subset

def SitsOnly (seatings : List Seating) (slot : Slot) (ancode : Ancode) (room : RoomName) : Prop :=
  ∀ other, Sits seatings slot ancode other ↔ other = room

theorem SitsOnly.single (only : SitsOnly seatings slot ancode room) : (roomsOf seatings slot ancode).length = 1 := by
  have once : (roomsOf seatings slot ancode).Nodup := Ordering.alphabetical_nodup _
  have alone : (roomsOf seatings slot ancode).Perm [room] := by
    apply (List.perm_ext_iff_of_nodup once (List.nodup_singleton room)).mpr
    intro other
    rw [mem_roomsOf, only other, List.mem_singleton]
  exact alone.length_eq

/-- A room in which an exam sits has a duty, and the exam is one of those that the duty is for. -/
theorem duty_of_sits (sits : Sits seatings slot ancode room) (minRooms : Nat) :
    ∃ duties, (slot, duties) ∈ Staffing.duties seatings minRooms ∧
      ∃ duty ∈ duties, duty.room = some room ∧ ancode ∈ duty.exams := by
  obtain ⟨seating, planned, here, exam, inRoom, occupied⟩ := sits
  have takes : TakesPlace slot seating := ⟨here, occupied⟩
  obtain ⟨duties, listed, duty, present, named⟩ := exists_duty.mpr ⟨seating, planned, takes, inRoom⟩
  have covers := ((duties_exact seatings minRooms).each slot duties listed).covers duty present room named
  exact ⟨duties, listed, duty, present, named, (covers.exams ancode).mpr ⟨seating, planned, takes, inRoom, exam⟩⟩

private theorem staffed_fair (ids : (setting.members.map (·.id)).Nodup)
    (staffed : Staffed invigilators config seatings scheduled calendar report setting progress) :
    ∀ invigilation ∈ progress.invigilations, Fair setting invigilation := by
  have rooms := staffed.rooms
  subst rooms
  obtain ⟨given, listed, -, fair⟩ := giveSlots_given ids (duties_slots ..) (fun _ _ => duties_shift) staffed.given
  rw [List.nil_append] at listed
  rw [listed]
  exact fun invigilation noted => (fair invigilation noted).2

/-- Somebody watches a room in which alone an exam of theirs sits. -/
structure WatchesOwn (report : StaffingReport) (seatings : List Seating) (scheduled : Agenda Exam) (slot : Slot)
    (room : RoomName) (id : StaffId) : Prop where
  given : ∃ invigilation ∈ report.invigilations, Own slot invigilation ∧ invigilation.room = some room ∧
    invigilation.invigilator = id
  own : ∃ exam ∈ scheduled.values, exam.examiner = id ∧ SitsOnly seatings slot exam.ancode room

private theorem watchesOwn_of_fair
    (staffed : Staffed invigilators config seatings scheduled calendar report setting progress)
    (ids : (setting.members.map (·.id)).Nodup) (noted : invigilation ∈ progress.invigilations)
    (own : Own slot invigilation) : ∃ room, invigilation.room = some room ∧
      WatchesOwn report seatings scheduled slot room invigilation.invigilator := by
  obtain ⟨room, named, ancode, examiner, only⟩ := (staffed_fair ids staffed invigilation noted).own own.2
  rw [staffed.exams] at examiner
  rw [staffed.rooms, own.1] at only
  obtain ⟨exam, present, rfl, same⟩ := examinerOf?_some examiner
  rw [← staffed.invigilations_eq] at noted
  exact ⟨room, named, ⟨invigilation, noted, own, named, rfl⟩, exam, present, same, only⟩

/-- The room in which alone an exam sits is watched by an examiner of such an exam, if the examiner of this one
serves in the slot; or that examiner watches another room in which alone an exam of theirs sits. -/
theorem own_rooms_are_watched {exam : Exam} {invigilator : Invigilator} (ids : (invigilators.map (·.id)).Nodup)
    (ancodes : (scheduled.values.map (·.ancode)).Nodup)
    (balanced : Staffing.balance invigilators config seatings scheduled calendar = .ok report)
    (listed : exam ∈ scheduled.values) (only : SitsOnly seatings slot exam.ancode room)
    (known : invigilator ∈ invigilators) (examines : exam.examiner = invigilator.id)
    (serves : Serves config calendar invigilator slot) :
    (∃ id, WatchesOwn report seatings scheduled slot room id) ∨
      ∃ other, other ≠ room ∧ WatchesOwn report seatings scheduled slot other invigilator.id := by
  obtain ⟨setting, progress, staffed⟩ := balance_staffed balanced
  have distinct := members_ids ids config.invigilatorOverrides
  rw [← staffed.pool] at distinct
  obtain ⟨member, pooled, same, available⟩ := exists_available known serves
  rw [← staffed.pool] at pooled
  obtain ⟨place, found⟩ := List.mem_iff_getElem?.mp pooled
  have could : CouldWatch setting slot exam.ancode member place := by
    constructor
    case single =>
      rw [staffed.rooms]
      exact only.single
    case examiner =>
      rw [staffed.exams, examinerOf?, Lookups.getLast?_key ancodes listed, same, ← examines]
      rfl
    case pooled => exact memberOf?_listed distinct found
    case available => rwa [staffed.dates]
  obtain ⟨duties, planned, duty, present, named, inside⟩ :=
    duty_of_sits ((only room).mpr rfl) config.invigilation.reserveMinRooms
  obtain ⟨first, last, given, grown⟩ := giveSlots_reach planned staffed.given
  have roomed : duty.room ≠ none := by
    rw [named]
    exact Option.some_ne_none room
  have settled := (giveSlot_settles (duties_shift planned).slot_eq given present roomed).mono grown
  cases settled with
  | inl taken =>
    obtain ⟨invigilation, noted, own, inRoom⟩ := taken
    obtain ⟨other, elsewhere, watches⟩ := watchesOwn_of_fair staffed distinct noted own
    rw [inRoom, named, Option.some.injEq] at elsewhere
    subst other
    exact .inl ⟨_, watches⟩
  | inr passed =>
    obtain ⟨invigilation, noted, own, id⟩ := passed exam.ancode inside member place could
    obtain ⟨other, -, watches⟩ := watchesOwn_of_fair staffed distinct noted own
    rw [id, same] at watches
    by_cases alike : other = room
    · exact .inl ⟨_, alike ▸ watches⟩
    · exact .inr ⟨other, alike, watches⟩

/-- Two exams of `ada`, one of them in a room with an exam of `cem`. -/
def crossing : Agenda Exam :=
  [(⟨1, 1⟩, [
    { ancode := 1, title := "", examiner := "ada", duration := 60, category := .regular,
      registrations := [⟨"IF", ["a"]⟩], constraints := {} },
    { ancode := 2, title := "", examiner := "cem", duration := 60, category := .regular,
      registrations := [⟨"IF", ["b"]⟩], constraints := {} },
    { ancode := 3, title := "", examiner := "ada", duration := 90, category := .regular,
      registrations := [⟨"IF", ["c"]⟩], constraints := {} }])]

def crossingRooms : List Seating :=
  [⟨⟨1, 1⟩, "R1", 1, 60, ["a"], false, false⟩, ⟨⟨1, 1⟩, "R1", 2, 60, ["b"], false, false⟩,
    ⟨⟨1, 1⟩, "R2", 3, 90, ["c"], false, false⟩]

/-- `ada` watches the longer of her exams, and `cem` is not there, so the room of both goes to somebody else. -/
theorem longer_exam_is_watched :
    ∃ report, Staffing.balance morningStaff absences crossingRooms crossing july = .ok report ∧
      report.invigilations = [⟨⟨1, 1⟩, some "R2", "ada", 90, true⟩, ⟨⟨1, 1⟩, none, "bob", 90, false⟩,
        ⟨⟨1, 1⟩, some "R1", "dan", 60, false⟩] ∧
      ((∃ id, WatchesOwn report crossingRooms crossing ⟨1, 1⟩ "R1" id) ∨
        ∃ other, other ≠ "R1" ∧ WatchesOwn report crossingRooms crossing ⟨1, 1⟩ other "ada") := by
  have given : (Staffing.balance morningStaff absences crossingRooms crossing july).toOption.map (·.invigilations)
      = some [⟨⟨1, 1⟩, some "R2", "ada", 90, true⟩, ⟨⟨1, 1⟩, none, "bob", 90, false⟩,
        ⟨⟨1, 1⟩, some "R1", "dan", 60, false⟩] := by decide +kernel
  have ada : (⟨"ada", 1, 0, [], []⟩ : Invigilator) ∈ morningStaff := by decide +kernel
  have settings : overrideOf absences.invigilatorOverrides "ada" = {} := by decide +kernel
  have serves : Serves absences july ⟨"ada", 1, 0, [], []⟩ ⟨1, 1⟩ := serves_unrestricted settings rfl rfl
  have only : SitsOnly crossingRooms ⟨1, 1⟩ 1 "R1" := by
    have rooms : roomsOf crossingRooms ⟨1, 1⟩ 1 = ["R1"] := by decide +kernel
    intro other
    rw [← mem_roomsOf, rooms, List.mem_singleton]
  have listed : crossing.values.head (by decide) ∈ crossing.values := List.head_mem _
  obtain ⟨report, balanced, invigilations⟩ := toOption_map_some given
  exact ⟨report, balanced, invigilations,
    own_rooms_are_watched (by decide) (by decide) balanced listed only ada rfl serves⟩

end Timetable.Proofs.OwnRooms
