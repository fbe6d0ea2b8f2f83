import Timetable.Proofs.StaffExclusions

/-! A duty is left open only where nobody is left to take it. Whoever is busy has a duty of the slot, so those who
could take an open duty all have another one. -/

namespace Timetable.Proofs.OpenDuties
open Staffing Returned StaffingRuns StaffExclusions RoomDuties ExactDuties

variable {setting : Setting} {before after : Progress} {duty : Duty} {duties : List Duty} {member : Member}
  {place : Nat} {slot : Slot} {invigilators : List Invigilator} {config : Config} {seatings : List Seating}
  {scheduled : Agenda Exam} {calendar : Calendar} {report : StaffingReport}

structure MayTake (setting : Setting) (slot : Slot) (member : Member) : Prop where
  available : member.isAvailable slot (setting.calendar.dateOf? slot) = true
  elsewhere : ∀ exam ∈ setting.scheduled.under slot, exam.examiner ≠ member.id

/-- Whatever is owed, only members who are busy are passed over. -/
theorem busy_of_open (nobody : furthestBehind? setting before slot = none)
    (listed : setting.members[place]? = some member) (may : MayTake setting slot member) : place ∈ before.busy := by
  have none_eligible := List.filter_eq_nil_iff.mp (Ordering.lastMax?_eq_none.mp nobody) (member, place)
    (List.mk_mem_zipIdx_iff_getElem?.mpr listed)
  apply Classical.byContradiction
  intro idle
  apply none_eligible
  have apart := may.elsewhere
  simpa [isEligible, idle, may.available] using apart

/-- Where a duty is open, all who may take duties of its slot have one. -/
def Exhausted (setting : Setting) (progress : Progress) : Prop :=
  ∀ entry ∈ progress.unassigned, ∀ member ∈ setting.members, MayTake setting entry.1 member →
    ∃ invigilation ∈ progress.invigilations, invigilation.invigilator = member.id ∧ invigilation.slot = entry.1

private theorem step_exhausted (occupied : Occupied setting (·.slot = duty.slot) before)
    (exhausted : Exhausted setting before)
    (step : Step setting before duty after) :
    Occupied setting (·.slot = duty.slot) after ∧ Exhausted setting after := by
  cases step.decision with
  | inl granted =>
    obtain ⟨member, place, ownExam, listed, given⟩ := granted
    refine ⟨give_occupied occupied listed rfl given, ?_⟩
    obtain ⟨minutes, -, rfl⟩ := give_ok given
    intro entry left member pooled may
    obtain ⟨invigilation, noted, same⟩ := exhausted entry left member pooled may
    exact ⟨invigilation, List.mem_append_left _ noted, same⟩
  | inr undecided =>
    obtain ⟨nobody, rfl⟩ := undecided
    refine ⟨occupied, ?_⟩
    intro entry left member pooled may
    cases List.mem_append.mp left with
    | inl earlier => exact exhausted entry earlier member pooled may
    | inr added =>
      obtain rfl := List.mem_singleton.mp added
      obtain ⟨place, listed⟩ := List.mem_iff_getElem?.mp pooled
      exact occupied place (busy_of_open nobody listed may) member listed

private theorem giveSlot_exhausted (here : ∀ duty ∈ duties, duty.slot = slot) (exhausted : Exhausted setting before)
    (returned : giveSlot setting before duties = .ok after) : Exhausted setting after := by
  obtain ⟨order, same, run⟩ := giveSlot_run returned
  have kept : Occupied setting (·.slot = slot) after ∧ Exhausted setting after := by
    apply run.keeps _ _ ⟨occupied_idle _ _ before, exhausted⟩
    intro duty listed before after held step
    have slotted := here duty (same.mem_iff.mp listed)
    rw [← slotted] at held ⊢
    exact step_exhausted held.1 held.2 step
  exact kept.2

private theorem staffed_exhausted {progress : Progress}
    (staffed : Staffed invigilators config seatings scheduled calendar report setting progress) :
    Exhausted setting progress := by
  refine foldlM_keeps_each (Exhausted setting) ?_ ?_ staffed.given
  · intro item listed before after exhausted given
    exact giveSlot_exhausted (duties_shift listed).slot_eq exhausted given
  · intro entry left
    cases left

/-- If a duty of a slot stays open, then everybody who serves in the slot and examines nothing in it has a duty
there, however little they owe. -/
theorem open_duties_leave_nobody {invigilator : Invigilator} {room : Option RoomName}
    (balanced : Staffing.balance invigilators config seatings scheduled calendar = .ok report)
    (left : (slot, room) ∈ report.unassigned) (known : invigilator ∈ invigilators)
    (serves : Serves config calendar invigilator slot)
    (elsewhere : ∀ exams, (slot, exams) ∈ scheduled → ∀ exam ∈ exams, exam.examiner ≠ invigilator.id) :
    ∃ invigilation ∈ report.invigilations,
      invigilation.invigilator = invigilator.id ∧ invigilation.slot = slot := by
  obtain ⟨setting, progress, staffed⟩ := balance_staffed balanced
  obtain ⟨member, pooled, same, available⟩ := exists_available known serves
  rw [← staffed.pool] at pooled
  have may : MayTake setting slot member := by
    constructor
    case available => rwa [staffed.dates]
    case elsewhere =>
      intro exam present
      rw [staffed.exams] at present
      obtain ⟨exams, listed, inside⟩ := under_listed present
      exact same ▸ elsewhere exams listed exam inside
  rw [staffed.unassigned_eq] at left
  rw [staffed.invigilations_eq, ← same]
  exact staffed_exhausted staffed (slot, room) left member pooled may

/-- `eve` watches a room; `cem`, who is not there, watches none. -/
theorem eve_is_not_left_over :
    ∃ report, Staffing.balance morningStaff absences morningRooms morning july = .ok report ∧
      report.unassigned = [(⟨1, 1⟩, some "R3")] ∧
      ∃ invigilation ∈ report.invigilations, invigilation.invigilator = "eve" ∧ invigilation.slot = ⟨1, 1⟩ := by
  have left : (Staffing.balance morningStaff absences morningRooms morning july).toOption.map (·.unassigned)
      = some [(⟨1, 1⟩, some "R3")] := by decide +kernel
  have eve : (⟨"eve", 1, 0, [], []⟩ : Invigilator) ∈ morningStaff := by decide +kernel
  have settings : overrideOf absences.invigilatorOverrides "eve" = {} := by decide +kernel
  have serves : Serves absences july ⟨"eve", 1, 0, [], []⟩ ⟨1, 1⟩ := serves_unrestricted settings rfl rfl
  have elsewhere : ∀ exams, (⟨1, 1⟩, exams) ∈ morning → ∀ exam ∈ exams, exam.examiner ≠ "eve" := by
    intro exams listed
    cases List.mem_singleton.mp listed
    decide
  obtain ⟨report, balanced, unassigned⟩ := toOption_map_some left
  have found : ((⟨1, 1⟩, some "R3") : Slot × Option RoomName) ∈ report.unassigned := by
    rw [unassigned]
    exact List.mem_singleton_self _
  exact ⟨report, balanced, unassigned, open_duties_leave_nobody balanced found eve serves elsewhere⟩

end Timetable.Proofs.OpenDuties
