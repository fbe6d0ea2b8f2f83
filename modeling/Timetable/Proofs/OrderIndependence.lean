import Timetable.Proofs.GroupsRearranged
import Timetable.Proofs.PlanStages
import Timetable.Proofs.SlotRounds
import Timetable.Proofs.StaffExclusions
import Timetable.Proofs.StaffUnlinked

/-! A plan does not depend on the order in which its input is listed. Every list is searched by distinct
keys or sorted by them before anything is decided. -/

namespace Timetable.Proofs.OrderIndependence
open Chronology Grouping GroupMembership GroupsRearranged InputChecks LinkedExams SeatingUnlinked StaffUnlinked
  Validation

section
variable {calendar other : Calendar}

structure SameDays (calendar other : Calendar) : Prop where
  slots : calendar.period.slots.Perm other.period.slots
  goSlots : calendar.period.goSlots.Perm other.period.goSlots
  exclusive : other.goExclusive = calendar.goExclusive
  distinct : (calendar.period.slots.map (·.slot)).Nodup

namespace SameDays
variable (same : SameDays calendar other)
include same

theorem slots_eq : other.slots = calendar.slots :=
  (Ordering.stableSort_rearranged linear_slot TimedSlot.slot same.slots same.distinct).symm

private theorem dateOf?_eq : other.dateOf? = calendar.dateOf? := by
  funext slot
  rw [Calendar.dateOf?, Calendar.dateOf?, Calendar.find?, Calendar.find?,
    Lookups.filter_key_rearranged same.slots same.distinct]

private theorem admitsCategory_eq : other.admitsCategory = calendar.admitsCategory := by
  have goSlots : other.isGo = calendar.isGo := by
    funext slot
    rw [Calendar.isGo, Calendar.isGo, same.goSlots.contains_eq]
  funext category slot
  simp only [Calendar.admitsCategory, goSlots, same.exclusive]

private theorem allowedSlots_eq : other.allowedSlots = calendar.allowedSlots := by
  have admits : other.admits = calendar.admits := by
    funext exam timed
    simp only [Calendar.admits, same.admitsCategory_eq]
  funext exam
  rw [Calendar.allowedSlots, Calendar.allowedSlots, same.slots_eq, admits]

private theorem grouped_eq {committed again : List Placement} (placed : committedSlot? again = committedSlot? committed)
    (exams : List Exam) : grouped other exams again = grouped calendar exams committed := by
  have common : commonSlots other = commonSlots calendar := by
    funext members
    cases members with
    | nil => rfl
    | cons first rest => rw [commonSlots, commonSlots, same.allowedSlots_eq]
  have groups : countedGroup other again = countedGroup calendar committed := by
    funext members
    simp only [countedGroup, bareGroup, common, placed]
  have all : found other exams again = found calendar exams committed := by
    rw [found, found, groups]
  rw [grouped, grouped, weights, weights, links, links, all]

end SameDays

end

private theorem committedSlot?_rearranged {committed again : List Placement} (same : committed.Perm again)
    (distinct : (committed.map (·.group)).Nodup) : committedSlot? again = committedSlot? committed := by
  funext code
  rw [committedSlot?, committedSlot?, Lookups.filter_key_rearranged same distinct]

private theorem accommodation_rearranged {records again : List Accommodation} (same : records.Perm again)
    (distinct : (records.map (·.student)).Nodup) : Accommodation.of? again = Accommodation.of? records := by
  funext student
  rw [Accommodation.of?, Accommodation.of?, Lookups.filter_key_rearranged same distinct]

private theorem inventory_rearranged {rooms again : List Room} (same : rooms.Perm again)
    (distinct : (rooms.map (·.name)).Nodup) (overrides : Table RoomOverride) :
    Allocator.inventory again overrides = Allocator.inventory rooms overrides := by
  have names := (SlotRounds.inventory_names rooms overrides).nodup_iff.mpr distinct
  unfold Allocator.inventory at names ⊢
  rw [((Ordering.stableSort_perm _).map _).nodup_iff] at names
  refine (Ordering.stableSort_rearranged SlotRounds.linear_inventory (fun room : Room => (room.seats, room.name))
    (same.map _) (.of_map Prod.snd ?_)).symm
  rwa [List.map_map]

private theorem members_rearranged {staff again : List Invigilator} (same : staff.Perm again)
    (distinct : (staff.map (·.id)).Nodup) (overrides : Table InvigilatorOverride) :
    Staffing.members again overrides = Staffing.members staff overrides := by
  have ids := StaffExclusions.members_ids distinct overrides
  unfold Staffing.members at ids ⊢
  rw [((Ordering.stableSort_perm _).map _).nodup_iff] at ids
  exact (Ordering.stableSort_rearranged Ordering.linear_string Staffing.Member.id (same.filterMap _) ids).symm

structure Relinked (exam other : Exam) : Prop where
  rest : unlinked other = unlinked exam
  links : exam.constraints.sameSlot.Perm other.constraints.sameSlot

/-- The same input with its lists in another order. Seatings to keep stand as they are, and so do the
registrations of each exam. -/
structure Rearranged (input other : PlanningInput) : Prop where
  slots : input.period.slots.Perm other.period.slots
  goSlots : input.period.goSlots.Perm other.period.goSlots
  exams : ∃ relinked, List.Forall₂ Relinked input.exams relinked ∧ relinked.Perm other.exams
  accommodations : input.accommodations.Perm other.accommodations
  rooms : input.rooms.Perm other.rooms
  invigilators : input.invigilators.Perm other.invigilators
  committed : input.committed.Perm other.committed
  pinned : other.pinned = input.pinned

private theorem links_cons {exam : Exam} {exams : List Exam} {ancode linked : Ancode} :
    Links (exam :: exams) ancode linked ↔
      (exam.ancode = ancode ∧ linked ∈ exam.constraints.sameSlot) ∨ Links exams ancode linked := by
  simp [Links]

private theorem relinked_reordered {exams relinked : List Exam} (each : List.Forall₂ Relinked exams relinked) :
    exams.map unlinked = relinked.map unlinked ∧
      ∀ ancode linked, Links exams ancode linked ↔ Links relinked ancode linked := by
  induction each with
  | nil => exact ⟨rfl, fun _ _ => .rfl⟩
  | cons first _ ih =>
    refine ⟨by rw [List.map_cons, List.map_cons, first.rest, ih.1], fun ancode linked => ?_⟩
    rw [links_cons, links_cons, ih.2, ancode_eq first.rest, first.links.mem_iff]

namespace Rearranged
variable {input other : PlanningInput} {config : Config} {groups : List ExamGroup} (same : Rearranged input other)
include same

private theorem reordered : Reordered input.exams other.exams := by
  obtain ⟨relinked, each, perm⟩ := same.exams
  obtain ⟨bare, linked⟩ := relinked_reordered each
  refine ⟨bare ▸ perm.map unlinked, fun ancode code => (linked ancode code).trans ?_⟩
  simp only [Links, perm.mem_iff]

private theorem sameDays (accepted : Accepted input config) :
    SameDays (input.calendar config) (other.calendar config) :=
  ⟨same.slots, same.goSlots, rfl, accepted.distinct_slots⟩

private theorem exams_sound (sound : examProblems input.exams = []) : examProblems other.exams = [] := by
  rw [examProblems_eq_nil_iff] at sound ⊢
  have reordered := same.reordered
  intro exam member
  obtain ⟨twin, present, alike⟩ := reordered.symm.exists_same member
  have duration : twin.duration = exam.duration := by
    change (unlinked twin).duration = (unlinked exam).duration
    rw [alike]
  refine ⟨duration ▸ (sound twin present).1, fun linked listed => ?_⟩
  obtain ⟨holder, held, -, inside⟩ := (reordered.linked exam.ancode linked).mpr ⟨exam, member, rfl, listed⟩
  exact reordered.ancodes.mem_iff.mp ((sound holder held).2 linked inside)

theorem sound (clean : input.problems = []) : other.problems = [] := by
  have ancodes := same.reordered.ancodes
  have slots := same.slots.map (·.slot)
  rw [problems_eq_nil_iff] at clean ⊢
  obtain ⟨days, duplicates, known, exams, rooms, staff, committed, pinned⟩ := clean
  refine ⟨?_, ?_, ?_, same.exams_sound exams, ?_, ?_, ?_, ?_⟩
  · rw [calendarProblems, ← same.slots.isEmpty_eq]
    exact days
  · rw [duplicateProblems_eq_nil_iff] at duplicates ⊢
    rwa [← slots.nodup_iff, ← ancodes.nodup_iff, ← (same.rooms.map _).nodup_iff,
      ← (same.invigilators.map _).nodup_iff]
  · rw [slotProblems_eq_nil_iff] at known ⊢
    simpa only [slots.mem_iff, same.goSlots.mem_iff] using known
  · simpa [roomProblems, List.filter_eq_nil_iff, same.rooms.mem_iff] using rooms
  · simpa [staffProblems, List.filter_eq_nil_iff, same.invigilators.mem_iff] using staff
  · rw [committedProblems_eq_nil_iff] at committed ⊢
    simpa only [← slots.mem_iff, ← same.committed.mem_iff] using committed
  · rw [pinnedProblems_eq_nil_iff] at pinned ⊢
    simpa only [← slots.mem_iff, ← ancodes.mem_iff, same.pinned] using pinned

theorem accepted (before : Accepted input config) (codes : (input.committed.map (·.group)).Nodup) :
    Accepted other config where
  sound := same.sound before.sound
  settings := before.settings
  housed := by
    have needs : other.exams.any Exam.needsRoom = input.exams.any Exam.needsRoom := by
      have bare (exams : List Exam) : exams.any Exam.needsRoom = (exams.map unlinked).any Exam.needsRoom := by
        rw [List.any_map]
        rfl
      rw [bare, bare input.exams, same.reordered.bare.any_eq]
    rw [needs, ← same.rooms.isEmpty_eq]
    exact before.housed
  inRange := same.reordered.inRange before.distinct_exams before.inRange
  schedulable := by
    have placed := committedSlot?_rearranged same.committed codes
    have days := same.sameDays before
    rw [days.grouped_eq placed]
    have empty := @Reordered.grouped_unschedulable (input.calendar config) _ _ input.committed same.reordered
      before.distinct_exams before.distinct_slots
    rw [before.schedulable] at empty
    exact empty.symm.eq_nil

theorem groups_eq (before : Accepted input config) (codes : (input.committed.map (·.group)).Nodup) :
    (grouped (other.calendar config) other.exams other.committed).groups
      = (grouped (input.calendar config) input.exams input.committed).groups := by
  rw [(same.sameDays before).grouped_eq (committedSlot?_rearranged same.committed codes)]
  exact (same.reordered.grouped_groups before.distinct_exams before.distinct_slots).symm

/-- Without links the two inputs have the same exams in every slot. -/
theorem agenda_eq (before : Accepted input config) (plan : Plan) (groups : List ExamGroup) :
    bareAgenda (scheduledExams plan groups other.exams) = bareAgenda (scheduledExams plan groups input.exams) ∧
      bareAgenda (examsNeedingRooms plan groups other.exams)
        = bareAgenda (examsNeedingRooms plan groups input.exams) := by
  have exams : examOf? (other.exams.map unlinked) = examOf? (input.exams.map unlinked) := by
    funext ancode
    rw [examOf?, examOf?, Lookups.filter_key_rearranged same.reordered.bare]
    rw [ancodes_unlinked]
    exact before.distinct_exams
  have scheduled : scheduledExams plan groups (other.exams.map unlinked)
      = scheduledExams plan groups (input.exams.map unlinked) := by
    simp only [scheduledExams, exams]
  refine ⟨?_, ?_⟩
  · rw [← scheduledExams_unlinked, ← scheduledExams_unlinked, scheduled]
  · rw [← examsNeedingRooms_unlinked, ← examsNeedingRooms_unlinked, examsNeedingRooms, examsNeedingRooms, scheduled]

private theorem allocator_eq (before : Accepted input config) :
    Allocator.ofConfig other.rooms config = Allocator.ofConfig input.rooms config := by
  simp only [Allocator.ofConfig, inventory_rearranged same.rooms before.distinct_rooms]

private theorem furnish_eq (before : Accepted input config) (students : (input.accommodations.map (·.student)).Nodup)
    (groups : List ExamGroup) (plan : Plan) :
    furnish other config groups plan = furnish input config groups plan := by
  obtain ⟨scheduled, housed⟩ := same.agenda_eq before plan groups
  have records := accommodation_rearranged same.accommodations students
  have rooms : (Allocator.ofConfig other.rooms config).allocate (examsNeedingRooms plan groups other.exams)
        other.accommodations other.pinned
      = (Allocator.ofConfig input.rooms config).allocate (examsNeedingRooms plan groups input.exams)
        input.accommodations input.pinned := by
    rw [same.allocator_eq before, same.pinned, Allocator.allocate, ← allocateFrom_unlinked rfl, housed,
      allocateFrom_unlinked records]
    rfl
  have staff (seatings : List Seating) : Staffing.balance other.invigilators config seatings
        (scheduledExams plan groups other.exams) (other.calendar config)
      = Staffing.balance input.invigilators config seatings (scheduledExams plan groups input.exams)
        (input.calendar config) := by
    have members := members_rearranged same.invigilators before.distinct_staff
    rw [← (alike_bare rfl).balance_eq, scheduled, (alike_bare (same.sameDays before).dateOf?_eq).balance_eq]
    simp only [Staffing.balance, members]
  simp only [furnish, rooms, staff]

end Rearranged

/-- An input that passes the checks passes them in every order with the same groups, and whatever places
these groups, the genetic search included, the outcome or the error is the same. -/
theorem same_plan_in_any_order {input other : PlanningInput} {config : Config} {groups : List ExamGroup}
    (same : Rearranged input other) (prepared : prepare input config = .ok groups)
    (students : (input.accommodations.map (·.student)).Nodup) (codes : (input.committed.map (·.group)).Nodup) :
    prepare other config = .ok groups ∧
      ∀ scheduler, planWith scheduler other config = planWith scheduler input config := by
  obtain ⟨before, built⟩ := prepare_ok_iff.mp prepared
  have after : prepare other config = .ok groups :=
    prepare_ok_iff.mpr ⟨same.accepted before codes, built.trans (same.groups_eq before codes).symm⟩
  refine ⟨after, fun scheduler => ?_⟩
  simp only [planWith, prepared, after, same.furnish_eq before students]

/-- Exam 3 is linked to both others. Everything is listed in the one order or in another. -/
def linkedExams (links : List Ancode) (arrange : {α : Type} → List α → List α) : PlanningInput where
  period := ⟨arrange [⟨⟨1, 1⟩, ⟨⟨2025, 7, 1⟩, ⟨8, 30, 0, 0⟩⟩⟩, ⟨⟨2, 1⟩, ⟨⟨2025, 7, 2⟩, ⟨8, 30, 0, 0⟩⟩⟩],
    arrange [⟨1, 1⟩, ⟨2, 1⟩]⟩
  exams := arrange [
    { ancode := 3, title := "", examiner := "prof", duration := 90, category := .regular,
      registrations := [⟨"IF", ["a", "b"]⟩], constraints := { sameSlot := links } },
    { ancode := 1, title := "", examiner := "prof", duration := 60, category := .regular,
      registrations := [⟨"IF", ["c"]⟩], constraints := {} },
    { ancode := 2, title := "", examiner := "doc", duration := 60, category := .go,
      registrations := [⟨"DC", ["d"]⟩], constraints := {} }]
  accommodations := arrange [⟨"b", 25, false⟩, ⟨"c", 0, true⟩]
  rooms := arrange [⟨"R1", 1, false, false, false, true⟩, ⟨"R2", 4, false, false, false, false⟩]
  invigilators := arrange [⟨"prof", 1, 0, [], []⟩, ⟨"doc", 1, 0, [], []⟩]
  committed := arrange [⟨1, ⟨1, 1⟩⟩, ⟨7, ⟨2, 1⟩⟩]
  pinned := [⟨⟨1, 1⟩, "R2", 3, 90, ["a"], false, false⟩]

theorem linkedExams_backwards :
    prepare (linkedExams [2, 1] List.reverse) {} = .ok [⟨1, [1, 2, 3], 4, 90, [⟨1, 1⟩], [], .locked ⟨1, 1⟩⟩] ∧
      ∀ scheduler, planWith scheduler (linkedExams [2, 1] List.reverse) {}
        = planWith scheduler (linkedExams [1, 2] id) {} := by
  have backwards {α : Type} (items : List α) : items.Perm items.reverse := (List.reverse_perm items).symm
  have same : Rearranged (linkedExams [1, 2] id) (linkedExams [2, 1] List.reverse) := {
    slots := backwards _
    goSlots := backwards _
    exams := ⟨(linkedExams [2, 1] id).exams,
      .cons ⟨rfl, by decide⟩ (.cons ⟨rfl, .rfl⟩ (.cons ⟨rfl, .rfl⟩ .nil)), backwards _⟩
    accommodations := backwards _
    rooms := backwards _
    invigilators := backwards _
    committed := backwards _
    pinned := rfl }
  have prepared : prepare (linkedExams [1, 2] id) {}
      = .ok [⟨1, [1, 2, 3], 4, 90, [⟨1, 1⟩], [], .locked ⟨1, 1⟩⟩] := by decide +kernel
  exact same_plan_in_any_order same prepared (by decide) (by decide)

end Timetable.Proofs.OrderIndependence
