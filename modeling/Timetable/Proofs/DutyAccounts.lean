import Timetable.Proofs.WatchedRooms

/-! The accounts of a report. Every duty is spoken of once, whoever is given one is given all of its minutes, and
the minutes by which members were chosen are those that the report adds up to. -/

namespace Timetable.Proofs.DutyAccounts
open Staffing Returned StaffingRuns StaffExclusions WatchedRooms

variable {setting : Setting} {before after progress : Progress} {duty : Duty} {member : Member} {place : Nat}
  {ownExam : Bool} {agenda : Agenda Duty} {invigilators : List Invigilator} {config : Config}
  {seatings : List Seating} {scheduled : Agenda Exam} {calendar : Calendar} {report : StaffingReport}

def minutesGiven (invigilations : List Invigilation) (id : StaffId) : Nat :=
  total ((invigilations.filter (·.invigilator = id)).map (·.duration))

private theorem minutesGiven_own (invigilations : List Invigilation) (added : Invigilation) :
    minutesGiven (invigilations ++ [added]) added.invigilator
      = minutesGiven invigilations added.invigilator + added.duration := by
  simp [minutesGiven]

private theorem minutesGiven_other {added : Invigilation} {id : StaffId} (apart : added.invigilator ≠ id)
    (invigilations : List Invigilation) :
    minutesGiven (invigilations ++ [added]) id = minutesGiven invigilations id := by
  simp [minutesGiven, apart]

/-- The running minutes of each member are those of the duties given to them so far. -/
def Booked (setting : Setting) (progress : Progress) : Prop :=
  ∀ (place : Nat) (member : Member), setting.members[place]? = some member →
    progress.assigned[place]? = some (minutesGiven progress.invigilations member.id)

private theorem give_booked (ids : (setting.members.map (·.id)).Nodup) (booked : Booked setting before)
    (listed : setting.members[place]? = some member)
    (given : before.give member place duty ownExam = .ok after) : Booked setting after := by
  obtain ⟨minutes, counted, rfl⟩ := give_ok given
  have sum := numberOf_ok counted
  have running := booked place member listed
  rw [List.getD_eq_getElem?_getD, running, Option.getD_some] at sum
  intro other someone found
  by_cases same : place = other
  · subst other
    cases listed.symm.trans found
    have inside := (List.getElem?_eq_some_iff.mp running).1
    rw [List.getElem?_set_self inside, sum]
    exact congrArg some (minutesGiven_own _ ⟨duty.slot, duty.room, member.id, duty.duration, ownExam⟩).symm
  · have apart : member.id ≠ someone.id := fun alike => same (Lookups.place_of_key ids listed found alike)
    rw [List.getElem?_set_ne same, booked other someone found, minutesGiven_other apart]

private theorem step_booked (ids : (setting.members.map (·.id)).Nodup) (booked : Booked setting before)
    (step : Step setting before duty after) : Booked setting after := by
  cases step.decision with
  | inl granted =>
    obtain ⟨member, place, ownExam, listed, given⟩ := granted
    exact give_booked ids booked listed given
  | inr nobody =>
    rw [nobody.2]
    exact booked

theorem start_booked (setting : Setting) : Booked setting ⟨setting.members.map fun _ => 0, [], [], []⟩ := by
  intro place member listed
  rw [List.getElem?_map, listed]
  rfl

def Carries (agenda : Agenda Duty) (invigilations : List Invigilation) : Prop :=
  ∀ invigilation ∈ invigilations, ∃ duty ∈ agenda.values,
    post duty = (invigilation.slot, invigilation.room) ∧ duty.duration = invigilation.duration

private theorem step_carries (known : duty ∈ agenda.values) (carries : Carries agenda before.invigilations)
    (step : Step setting before duty after) : Carries agenda after.invigilations := by
  cases step.decision with
  | inl granted =>
    obtain ⟨member, place, ownExam, -, given⟩ := granted
    obtain ⟨minutes, -, rfl⟩ := give_ok given
    intro invigilation listed
    cases List.mem_append.mp listed with
    | inl earlier => exact carries invigilation earlier
    | inr added =>
      rw [List.mem_singleton.mp added]
      exact ⟨duty, known, rfl, rfl⟩
  | inr nobody =>
    rw [nobody.2]
    exact carries

private theorem greatest_spec {deviations : List Int} (filled : deviations ≠ []) :
    greatest deviations ∈ deviations ∧ ∀ deviation ∈ deviations, deviation ≤ greatest deviations := by
  cases deviations with
  | nil => exact absurd rfl filled
  | cons first rest => exact List.max?_eq_some_iff.mp List.max?_cons'

private theorem least_spec {deviations : List Int} (filled : deviations ≠ []) :
    least deviations ∈ deviations ∧ ∀ deviation ∈ deviations, least deviations ≤ deviation := by
  cases deviations with
  | nil => exact absurd rfl filled
  | cons first rest => exact List.min?_eq_some_iff.mp List.min?_cons'

structure Spans (deviations : List Int) (lowest highest : Int) : Prop where
  between : ∀ deviation ∈ deviations, lowest ≤ deviation ∧ deviation ≤ highest
  reached : deviations ≠ [] → lowest ∈ deviations ∧ highest ∈ deviations
  nothing : deviations = [] → lowest = 0 ∧ highest = 0

private theorem spans_extremes (deviations : List Int) : Spans deviations (least deviations) (greatest deviations) := by
  constructor
  case between =>
    intro deviation listed
    have filled := List.ne_nil_of_mem listed
    exact ⟨(least_spec filled).2 deviation listed, (greatest_spec filled).2 deviation listed⟩
  case reached => exact fun filled => ⟨(least_spec filled).1, (greatest_spec filled).1⟩
  case nothing =>
    rintro rfl
    exact ⟨rfl, rfl⟩

/-- Each member has a balance of what is required of them, whatever has been given to them. -/
theorem balances_required (setting : Setting) (assigned : List Nat)
    (counted : setting.required.length = setting.members.length) :
    (balances setting assigned).map (·.required) = setting.required := by
  apply List.ext_getElem
  · simp [balances, counted]
  · intro place inside within
    simp [balances, balanceOf, within]

private theorem requiredOf_length {members : List Member} {required : List Nat}
    (returned : requiredOf members agenda = .ok required) : required.length = members.length := by
  obtain ⟨totalDuty, -, returned⟩ := bind_ok returned
  obtain ⟨totalOther, -, returned⟩ := bind_ok returned
  exact (mapM_ok_iff.mp returned).length_eq.symm

private theorem balance_required
    (balanced : Staffing.balance invigilators config seatings scheduled calendar = .ok report) :
    requiredOf (members invigilators config.invigilatorOverrides)
      (Staffing.duties seatings config.invigilation.reserveMinRooms) = .ok (report.balances.map (·.required)) := by
  obtain ⟨required, owed, balanced⟩ := bind_ok balanced
  obtain ⟨progress, -, balanced⟩ := bind_ok balanced
  obtain rfl := pure_ok balanced
  have same := balances_required ⟨_, required, seatings, scheduled, calendar⟩ progress.assigned (requiredOf_length owed)
  exact owed.trans (congrArg Except.ok same.symm)

private theorem balance_extremes
    (balanced : Staffing.balance invigilators config seatings scheduled calendar = .ok report) :
    report.maxDeviation = greatest (report.balances.map (·.deviation)) ∧
      report.minDeviation = least (report.balances.map (·.deviation)) := by
  obtain ⟨required, -, balanced⟩ := bind_ok balanced
  obtain ⟨progress, -, balanced⟩ := bind_ok balanced
  obtain rfl := pure_ok balanced
  exact ⟨rfl, rfl⟩

private theorem staffed_carries
    (staffed : Staffed invigilators config seatings scheduled calendar report setting progress) :
    Carries (Staffing.duties seatings config.invigilation.reserveMinRooms) progress.invigilations := by
  refine giveSlots_keep (Carries _ ·.invigilations) (fun _ => id) ?_ ?_ staffed.given
  · intro duty known before after carries step
    exact step_carries known carries step
  · intro invigilation listed
    cases listed

private theorem staffed_booked (ids : (setting.members.map (·.id)).Nodup)
    (staffed : Staffed invigilators config seatings scheduled calendar report setting progress) :
    Booked setting progress := by
  refine giveSlots_keep (Booked setting) (fun _ => id) ?_ (start_booked setting) staffed.given
  intro duty known before after booked step
  exact step_booked ids booked step

structure Accounts (invigilators : List Invigilator) (overrides : Table InvigilatorOverride) (agenda : Agenda Duty)
    (report : StaffingReport) : Prop where
  /-- Given or not, every room and every reserve is spoken of as often as it has to be watched. -/
  decided : (decided report.invigilations report.unassigned).Perm (agenda.values.map post)
  posts : (agenda.values.map post).Nodup
  carries : Carries agenda report.invigilations
  members : ∀ id, id ∈ report.balances.map (·.invigilator) ↔
    ∃ invigilator ∈ invigilators, invigilator.id = id ∧ (overrideOf overrides id).excluded = false
  once : (report.balances.map (·.invigilator)).Nodup
  required : requiredOf (Staffing.members invigilators overrides) agenda = .ok (report.balances.map (·.required))
  assigned : ∀ balance ∈ report.balances,
    balance.assigned = minutesGiven report.invigilations balance.invigilator
  deviation : ∀ balance ∈ report.balances, balance.deviation = (balance.assigned : Int) - balance.required
  extremes : Spans (report.balances.map (·.deviation)) report.minDeviation report.maxDeviation

/-- Every duty is given to somebody or reported as open, and what is said about each member and about the
extremes of all of them is what the duties given to them add up to. -/
theorem every_duty_is_accounted_for (ids : (invigilators.map (·.id)).Nodup)
    (balanced : Staffing.balance invigilators config seatings scheduled calendar = .ok report) :
    Accounts invigilators config.invigilatorOverrides
      (Staffing.duties seatings config.invigilation.reserveMinRooms) report := by
  obtain ⟨setting, progress, staffed⟩ := balance_staffed balanced
  obtain ⟨greatest, least⟩ := balance_extremes balanced
  have pool := members_ids ids config.invigilatorOverrides
  have named : report.balances.map (·.invigilator) = (members invigilators config.invigilatorOverrides).map (·.id) := by
    rw [staffed.balances_eq, balances_ids, staffed.pool]
  constructor
  case decided => exact duties_decided balanced
  case posts => exact posts_nodup ..
  case carries =>
    rw [staffed.invigilations_eq]
    exact staffed_carries staffed
  case members =>
    intro id
    rw [named, List.mem_map]
    constructor
    · intro listed
      obtain ⟨member, pooled, rfl⟩ := listed
      obtain ⟨invigilator, known, included, rfl⟩ := mem_members.mp pooled
      exact ⟨invigilator, known, rfl, included⟩
    · intro listed
      obtain ⟨invigilator, known, rfl, included⟩ := listed
      exact ⟨_, mem_members.mpr ⟨invigilator, known, included, rfl⟩, rfl⟩
  case once => rwa [named]
  case required => exact balance_required balanced
  case assigned =>
    rw [← staffed.pool] at pool
    have booked := staffed_booked pool staffed
    rw [staffed.balances_eq, staffed.invigilations_eq]
    intro balance listed
    obtain ⟨place, member, found, rfl⟩ := mem_balances_iff.mp listed
    have running : progress.assigned.getD place 0 = minutesGiven progress.invigilations member.id := by
      rw [List.getD_eq_getElem?_getD, booked place member found, Option.getD_some]
    exact running
  case deviation =>
    rw [staffed.balances_eq]
    intro balance listed
    obtain ⟨place, member, -, rfl⟩ := mem_balances_iff.mp listed
    rfl
  case extremes =>
    rw [least, greatest]
    exact spans_extremes _

/-- `R3` stays open; what the others take adds up to the minutes of each of the five. -/
theorem four_duties_are_accounted_for :
    ∃ report, Staffing.balance morningStaff absences morningRooms morning july = .ok report ∧
      report.balances = [⟨"ada", 60, 90, 30⟩, ⟨"bob", 60, 0, -60⟩, ⟨"cem", 60, 0, -60⟩, ⟨"dan", 60, 90, 30⟩,
        ⟨"eve", 60, 60, 0⟩] ∧
      Accounts morningStaff absences.invigilatorOverrides
        (Staffing.duties morningRooms absences.invigilation.reserveMinRooms) report := by
  have given : (Staffing.balance morningStaff absences morningRooms morning july).toOption.map (·.balances) = some
      [⟨"ada", 60, 90, 30⟩, ⟨"bob", 60, 0, -60⟩, ⟨"cem", 60, 0, -60⟩, ⟨"dan", 60, 90, 30⟩, ⟨"eve", 60, 60, 0⟩] := by
    decide +kernel
  obtain ⟨report, balanced, balances⟩ := toOption_map_some given
  exact ⟨report, balanced, balances, every_duty_is_accounted_for (by decide) balanced⟩

end Timetable.Proofs.DutyAccounts
