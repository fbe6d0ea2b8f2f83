import Timetable.Planning
import Timetable.Proofs.BuiltGroups

/-! What an input is known to satisfy once it has passed the checks in front of a search. -/

namespace Timetable.Proofs.InputChecks
open BuiltGroups GroupMembership Returned Validation

private theorem repetitions_eq_nil_iff {α : Type} [BEq α] [LawfulBEq α] {seen items : List α} :
    repetitions seen items = [] ↔ items.Nodup ∧ ∀ item ∈ items, item ∉ seen := by
  induction items generalizing seen with
  | nil => simp [repetitions]
  | cons item rest ih =>
    rw [repetitions]
    by_cases before : item ∈ seen
    · simp [before]
    · simp only [List.contains_iff_mem, before, if_false, ih, List.nodup_cons, List.mem_cons, not_or,
        forall_eq_or_imp, not_false_eq_true, true_and]
      constructor
      · rintro ⟨distinct, fresh⟩
        exact ⟨⟨fun inside => (fresh item inside).1 rfl, distinct⟩, fun other member => (fresh other member).2⟩
      · rintro ⟨⟨absent, distinct⟩, fresh⟩
        exact ⟨distinct, fun other member => ⟨fun same => absent (same ▸ member), fresh other member⟩⟩

theorem validate_ok_iff {input : PlanningInput} : validate input = .ok () ↔ input.problems = [] := by
  unfold validate
  cases input.problems <;> simp

theorem validateConfig_ok_iff {config : Config} : validateConfig config = .ok () ↔ config.problems = [] := by
  unfold validateConfig
  cases config.problems <;> simp

theorem problems_eq_nil_iff {input : PlanningInput} : input.problems = [] ↔
    calendarProblems input.period = [] ∧ duplicateProblems input = [] ∧ slotProblems input.period = [] ∧
      examProblems input.exams = [] ∧ roomProblems input.rooms = [] ∧
      staffProblems input.invigilators = [] ∧
      committedProblems (input.period.slots.map (·.slot)) input.committed = [] ∧
      pinnedProblems (input.period.slots.map (·.slot)) (input.exams.map (·.ancode)) input.pinned = [] := by
  simp only [PlanningInput.problems, List.append_eq_nil_iff, and_assoc]

theorem duplicateProblems_eq_nil_iff {input : PlanningInput} : duplicateProblems input = [] ↔
    (input.period.slots.map (·.slot)).Nodup ∧ (input.exams.map (·.ancode)).Nodup ∧
      (input.rooms.map (·.name)).Nodup ∧ (input.invigilators.map (·.id)).Nodup := by
  simp [duplicateProblems, repetitions_eq_nil_iff]

theorem slotProblems_eq_nil_iff {period : ExamPeriod} : slotProblems period = [] ↔
    (∀ slot ∈ period.slots.map (·.slot), slot.day ≠ 0 ∧ slot.number ≠ 0) ∧
      ∀ slot ∈ period.goSlots, slot ∈ period.slots.map (·.slot) := by
  simp [slotProblems, List.filter_eq_nil_iff]

theorem examProblems_eq_nil_iff {exams : List Exam} : examProblems exams = [] ↔
    ∀ exam ∈ exams, exam.duration ≠ 0 ∧ ∀ linked ∈ exam.constraints.sameSlot, linked ∈ exams.map (·.ancode) := by
  simp [examProblems, List.flatMap_eq_nil_iff, List.filter_eq_nil_iff]

theorem staffProblems_eq_nil_iff {invigilators : List Invigilator} : staffProblems invigilators = [] ↔
    ∀ invigilator ∈ invigilators, isValidFactor invigilator.factor = true := by
  simp [staffProblems, List.filter_eq_nil_iff]

theorem committedProblems_eq_nil_iff {slots : List Slot} {committed : List Placement} :
    committedProblems slots committed = [] ↔ ∀ placement ∈ committed, placement.slot ∈ slots := by
  simp [committedProblems, List.filter_eq_nil_iff]

theorem pinnedProblems_eq_nil_iff {slots : List Slot} {ancodes : List Ancode} {pinned : List Seating} :
    pinnedProblems slots ancodes pinned = [] ↔
      ∀ pin ∈ pinned, pin.slot ∈ slots ∧ pin.ancode ∈ ancodes := by
  simp [pinnedProblems, List.flatMap_eq_nil_iff]

private theorem distinct_of_sound {input : PlanningInput} (sound : input.problems = []) :
    (input.exams.map (·.ancode)).Nodup :=
  (duplicateProblems_eq_nil_iff.mp (problems_eq_nil_iff.mp sound).2.1).2.1

structure Accepted (input : PlanningInput) (config : Config) : Prop where
  sound : input.problems = []
  settings : config.problems = []
  housed : (input.rooms.isEmpty && input.exams.any Exam.needsRoom) = false
  inRange : InRange input.exams
  schedulable : (grouped (input.calendar config) input.exams input.committed).unschedulable = []

/-- Once input and rooms are checked, planning needs groups that can be built and have slots to go to. -/
theorem prepare_checked {input : PlanningInput} {config : Config} (valid : validate input = .ok ())
    (settings : validateConfig config = .ok ())
    (housed : (input.rooms.isEmpty && input.exams.any Exam.needsRoom) = false) :
    prepare input config =
      (Grouping.build (input.calendar config) input.exams input.committed).mapError .fault >>= fun grouping =>
        if grouping.unschedulable = [] then .ok grouping.groups
        else .error (.unschedulable grouping.unschedulable) := by
  unfold prepare
  rw [valid, settings]
  simp only [housed, Bool.false_eq_true, if_false, List.isEmpty_iff]
  rfl

theorem prepare_ok_iff {input : PlanningInput} {config : Config} {groups : List ExamGroup} :
    prepare input config = .ok groups ↔ Accepted input config ∧
      groups = (grouped (input.calendar config) input.exams input.committed).groups := by
  constructor
  · intro returned
    obtain ⟨⟨⟩, valid, later⟩ := bind_ok returned
    obtain ⟨⟨⟩, settings, later⟩ := bind_ok later
    have housed : (input.rooms.isEmpty && input.exams.any Exam.needsRoom) = false := by
      by_contra missing
      rw [Bool.not_eq_false] at missing
      rw [if_pos missing] at later
      cases later
    rw [prepare_checked valid settings housed] at returned
    obtain ⟨grouping, built, chosen⟩ := bind_ok returned
    rw [validate_ok_iff] at valid
    rw [validateConfig_ok_iff] at settings
    obtain ⟨inRange, rfl⟩ := (build_ok_iff_inRange (distinct_of_sound valid)).mp (mapError_ok built)
    split at chosen
    next schedulable => exact ⟨⟨valid, settings, housed, inRange, schedulable⟩, (Except.ok.inj chosen).symm⟩
    next => cases chosen
  · rintro ⟨⟨sound, settings, housed, inRange, schedulable⟩, rfl⟩
    have built := (@build_ok_iff_inRange (input.calendar config) _ input.committed _ (distinct_of_sound sound)).mpr
      ⟨inRange, rfl⟩
    rw [prepare_checked (validate_ok_iff.mpr sound) (validateConfig_ok_iff.mpr settings) housed, built]
    exact if_pos schedulable

namespace Accepted
variable {input : PlanningInput} {config : Config}

theorem distinct_exams (accepted : Accepted input config) : (input.exams.map (·.ancode)).Nodup :=
  distinct_of_sound accepted.sound

theorem distinct_slots (accepted : Accepted input config) : (input.period.slots.map (·.slot)).Nodup :=
  (duplicateProblems_eq_nil_iff.mp (problems_eq_nil_iff.mp accepted.sound).2.1).1

theorem distinct_staff (accepted : Accepted input config) : (input.invigilators.map (·.id)).Nodup :=
  (duplicateProblems_eq_nil_iff.mp (problems_eq_nil_iff.mp accepted.sound).2.1).2.2.2

theorem distinct_rooms (accepted : Accepted input config) : (input.rooms.map (·.name)).Nodup :=
  (duplicateProblems_eq_nil_iff.mp (problems_eq_nil_iff.mp accepted.sound).2.1).2.2.1

end Accepted

end Timetable.Proofs.InputChecks
