import Timetable.Proofs.StaffExclusions
import Mathlib.Algebra.Order.Group.Int
import Mathlib.Algebra.Order.Group.Abs

/-! Two members who can take every duty end close together. Whoever of them owes more is asked first and
gets the longer duty, so a slot brings what they owe together, or apart by one duty at most. -/

namespace Timetable.Proofs.StaffBalance
open Staffing Returned StaffingRuns StaffExclusions RoomDuties ExactDuties

variable {setting : Setting} {before middle after : Progress} {duty : Duty} {duties others : List Duty}
  {member : Member} {place i j : Nat} {ownExam : Bool} {slot : Slot} {bound : Int}
  {invigilators : List Invigilator} {config : Config} {seatings : List Seating}
  {scheduled : Agenda Exam} {calendar : Calendar} {report : StaffingReport}

def Ready (setting : Setting) (slot : Slot) (place : Nat) : Prop :=
  ∃ member, setting.members[place]? = some member ∧
    member.isAvailable slot (setting.calendar.dateOf? slot) = true ∧
    ∀ exam ∈ setting.scheduled.values, exam.examiner ≠ member.id

def Counted (setting : Setting) (progress : Progress) : Prop :=
  progress.assigned.length = setting.members.length

def Close (setting : Setting) (progress : Progress) (i j : Nat) (bound : Int) : Prop :=
  owed setting progress.assigned i ≤ owed setting progress.assigned j + bound ∧
    owed setting progress.assigned j ≤ owed setting progress.assigned i + bound

theorem Close.symm (close : Close setting before i j bound) : Close setting before j i bound :=
  ⟨close.2, close.1⟩

/-- A duty is charged to the member it goes to, who is busy from then on. -/
def Charges (setting : Setting) (before : Progress) (duty : Duty) (place : Nat) (after : Progress) : Prop :=
  after.busy = place :: before.busy ∧ ∀ other, owed setting after.assigned other =
    owed setting before.assigned other - if other = place then (duty.duration : Int) else 0

private theorem give_charges (counted : Counted setting before) (known : place < setting.members.length)
    (given : before.give member place duty ownExam = .ok after) :
    Counted setting after ∧ Charges setting before duty place after := by
  obtain ⟨minutes, total, rfl⟩ := give_ok given
  have inside : place < before.assigned.length := counted.symm ▸ known
  refine ⟨?_, rfl, ?_⟩
  · rw [Counted, List.length_set]
    exact counted
  · intro other
    rw [numberOf_ok total]
    by_cases same : other = place
    · subst other
      simp [owed, inside]
      omega
    · simp [owed, same, List.getElem?_set_ne (Ne.symm same)]

private theorem under_values {exam : Exam} (present : exam ∈ scheduled.under slot) :
    exam ∈ scheduled.values := by
  obtain ⟨exams, listed, inside⟩ := under_listed present
  exact List.mem_flatMap.mpr ⟨_, listed, inside⟩

def behind (setting : Setting) (assigned : List Nat) (a b : Member × Nat) : Bool :=
  owed setting assigned a.2 < owed setting assigned b.2 ||
    (owed setting assigned a.2 = owed setting assigned b.2 && b.1.id ≤ a.1.id)

private theorem behind_iff {assigned : List Nat} {a b : Member × Nat} : behind setting assigned a b = true ↔
    owed setting assigned a.2 < owed setting assigned b.2 ∨
      owed setting assigned a.2 = owed setting assigned b.2 ∧ b.1.id ≤ a.1.id := by
  simp [behind]

instance (assigned : List Nat) : Std.Total fun a b => behind setting assigned a b = true where
  total a b := by
    rw [behind_iff, behind_iff]
    rcases Int.lt_trichotomy (owed setting assigned a.2) (owed setting assigned b.2) with less | same | more
    · exact .inl (.inl less)
    · exact (String.le_total b.1.id a.1.id).imp (fun ids => .inr ⟨same, ids⟩) (fun ids => .inr ⟨same.symm, ids⟩)
    · exact .inr (.inl more)

instance (assigned : List Nat) : IsTrans (Member × Nat) fun a b => behind setting assigned a b = true where
  trans a b c := by
    intro first second
    rw [behind_iff] at first second ⊢
    rcases first with less | ⟨same, first⟩
    · left
      omega
    · rcases second with less | ⟨alike, second⟩
      · left
        omega
      · exact .inr ⟨same.trans alike, String.le_trans second first⟩

private theorem Ready.owes_less (ready : Ready setting slot i) (idle : i ∉ before.busy)
    (chosen : furthestBehind? setting before slot = some (member, place)) :
    owed setting before.assigned i ≤ owed setting before.assigned place := by
  obtain ⟨other, listed, available, elsewhere⟩ := ready
  have eligible : isEligible setting before.busy slot other i = true := by
    have apart : ∀ exam ∈ setting.scheduled.under slot, exam.examiner ≠ other.id := by
      intro exam present
      exact elsewhere exam (under_values present)
    simpa [isEligible, idle, available] using apart
  have asked : (other, i) ∈ setting.members.zipIdx.filter fun pair =>
      isEligible setting before.busy slot pair.1 pair.2 :=
    List.mem_filter.mpr ⟨List.mk_mem_zipIdx_iff_getElem?.mpr listed, eligible⟩
  have last : behind setting before.assigned (other, i) (member, place) = true :=
    @Ordering.le_lastMax? _ (behind setting before.assigned) _ _ _ _ chosen _ asked
  rcases behind_iff.mp last with less | same
  · exact Int.le_of_lt less
  · exact same.1.le

private theorem Ready.not_own (ready : Ready setting slot place) (busy : List Nat) (duty : Duty) :
    ownInvigilator? setting busy duty ≠ some (member, place) := by
  intro chosen
  obtain ⟨other, listed, -, elsewhere⟩ := ready
  obtain ⟨-, suits⟩ := ownInvigilator?_spec chosen
  obtain ⟨same, here, id, -⟩ := suits.available
  obtain ⟨-, -, ancode, -, -, examiner⟩ := suits.own rfl
  obtain ⟨exam, present, -, examines⟩ := examinerOf?_some examiner
  rw [listed, Option.some.injEq] at here
  exact elsewhere exam present (examines.trans (here ▸ id).symm)

/-- A duty is charged to one idle member, or to nobody. Where somebody who is ready is charged, nobody
else who is ready and idle owes more. -/
theorem step_charges (step : Step setting before duty after) (counted : Counted setting before) :
    Counted setting after ∧
      ((∃ place, place ∉ before.busy ∧ Charges setting before duty place after ∧
          ∀ other, Ready setting duty.slot place → Ready setting duty.slot other → other ∉ before.busy →
            owed setting before.assigned other ≤ owed setting before.assigned place) ∨
        after.busy = before.busy ∧ after.assigned = before.assigned) := by
  cases step with
  | own chosen given =>
    obtain ⟨idle, suits⟩ := ownInvigilator?_spec chosen
    obtain ⟨other, listed, -⟩ := suits.available
    have known := (List.getElem?_eq_some_iff.mp listed).1
    obtain ⟨kept, charged⟩ := give_charges counted known given
    exact ⟨kept, .inl ⟨_, idle, charged, fun _ ready _ _ => absurd chosen (ready.not_own _ _)⟩⟩
  | other chosen given =>
    obtain ⟨idle, suits⟩ := furthestBehind?_spec chosen
    obtain ⟨other, listed, -⟩ := suits.available
    have known := (List.getElem?_eq_some_iff.mp listed).1
    obtain ⟨kept, charged⟩ := give_charges counted known given
    exact ⟨kept, .inl ⟨_, idle, charged, fun _ _ ready idle => ready.owes_less idle chosen⟩⟩
  | left => exact ⟨counted, .inr ⟨rfl, rfl⟩⟩

private theorem run_counted (run : Run setting before duties after) (counted : Counted setting before) :
    Counted setting after := by
  induction run with
  | done => exact counted
  | next first _ ih => exact ih (step_charges first counted).1

private theorem busy_spared (run : Run setting before duties after) (counted : Counted setting before)
    (busy : place ∈ before.busy) :
    owed setting after.assigned place = owed setting before.assigned place := by
  induction run with
  | done => rfl
  | next first _ ih =>
    obtain ⟨kept, charged | untouched⟩ := step_charges first counted
    · obtain ⟨elsewhere, idle, ⟨occupied, charged⟩, -⟩ := charged
      have apart : place ≠ elsewhere := by
        rintro rfl
        exact idle busy
      rw [ih kept (occupied ▸ List.mem_cons_of_mem _ busy), charged, if_neg apart, Int.sub_zero]
    · rw [ih kept (untouched.1 ▸ busy), untouched.2]

/-- Nobody gets more than one duty of a run. -/
theorem charged_once (run : Run setting before duties after) (counted : Counted setting before)
    (positive : 0 ≤ bound) (short : ∀ duty ∈ duties, (duty.duration : Int) ≤ bound) (place : Nat) :
    owed setting after.assigned place ≤ owed setting before.assigned place ∧
      owed setting before.assigned place ≤ owed setting after.assigned place + bound := by
  induction run with
  | done => omega
  | @next _ _ _ duty _ first rest ih =>
    rw [List.forall_mem_cons] at short
    obtain ⟨kept, charged | untouched⟩ := step_charges first counted
    · obtain ⟨chosen, -, ⟨occupied, charged⟩, -⟩ := charged
      have paid := charged place
      split at paid
      next same =>
        rw [busy_spared rest kept (occupied ▸ same ▸ List.mem_cons_self)]
        omega
      next =>
        have later := ih kept short.2
        omega
    · rw [← untouched.2]
      exact ih kept short.2

/-- Whoever owed more gets the longer one of two duties, and is not asked again in this run. -/
theorem Charges.settles (charged : Charges setting before duty i middle) (rest : Run setting middle duties after)
    (counted : Counted setting middle) (apart : j ≠ i)
    (shorter : ∀ other ∈ duties, other.duration ≤ duty.duration) (short : (duty.duration : Int) ≤ bound)
    (more : owed setting before.assigned j ≤ owed setting before.assigned i)
    (close : Close setting before i j bound) : Close setting after i j bound := by
  obtain ⟨occupied, paid⟩ := charged
  have one := paid i
  rw [if_pos rfl] at one
  have other := paid j
  rw [if_neg apart] at other
  have spared := busy_spared rest counted (occupied ▸ List.mem_cons_self)
  have few : ∀ other ∈ duties, (other.duration : Int) ≤ (duty.duration : Int) := by
    intro other member
    exact Int.ofNat_le.mpr (shorter other member)
  have once := charged_once rest counted (Int.natCast_nonneg _) few j
  obtain ⟨first, second⟩ := close
  constructor <;> omega

private theorem run_keeps_close (run : Run setting before duties after) (counted : Counted setting before)
    (here : ∀ duty ∈ duties, duty.slot = slot)
    (sorted : duties.Pairwise fun first second => second.duration ≤ first.duration)
    (short : ∀ duty ∈ duties, (duty.duration : Int) ≤ bound) (one : Ready setting slot i)
    (two : Ready setting slot j) (apart : i ≠ j) (idle : i ∉ before.busy) (free : j ∉ before.busy)
    (close : Close setting before i j bound) : Close setting after i j bound := by
  induction run with
  | done => exact close
  | next first rest ih =>
    obtain ⟨kept, given | untouched⟩ := step_charges first counted
    · obtain ⟨place, -, charged, most⟩ := given
      rw [List.forall_mem_cons] at here short
      rw [List.pairwise_cons] at sorted
      rw [here.1] at most
      by_cases firstAsked : place = i
      · subst place
        exact charged.settles rest kept apart.symm sorted.1 short.1 (most j one two free) close
      by_cases secondAsked : place = j
      · subst place
        exact (charged.settles rest kept apart sorted.1 short.1 (most i two one idle) close.symm).symm
      obtain ⟨occupied, paid⟩ := charged
      apply ih kept here.2 sorted.2 short.2
      · simp [occupied, idle, Ne.symm firstAsked]
      · simp [occupied, free, Ne.symm secondAsked]
      · simpa [Close, paid, Ne.symm firstAsked, Ne.symm secondAsked] using close
    · rw [List.forall_mem_cons] at here short
      rw [List.pairwise_cons] at sorted
      apply ih kept here.2 sorted.2 short.2
      · rwa [untouched.1]
      · rwa [untouched.1]
      · rwa [Close, untouched.2]

private theorem giveOwn_spares (counted : Counted setting before)
    (returned : giveOwn setting before duties = .ok (after, others)) :
    Counted setting after ∧ others.Sublist duties ∧ ∀ place, Ready setting slot place →
      owed setting after.assigned place = owed setting before.assigned place ∧
        (place ∉ before.busy → place ∉ after.busy) := by
  induction duties generalizing before others with
  | nil =>
    cases returned
    exact ⟨counted, .slnil, fun _ _ => ⟨rfl, id⟩⟩
  | cons duty rest ih =>
    unfold giveOwn at returned
    split at returned
    next member chosen asked =>
      obtain ⟨middle, given, returned⟩ := bind_ok returned
      obtain ⟨idle, suits⟩ := ownInvigilator?_spec asked
      obtain ⟨other, listed, -⟩ := suits.available
      obtain ⟨kept, occupied, paid⟩ := give_charges counted (List.getElem?_eq_some_iff.mp listed).1 given
      obtain ⟨kept, fewer, spared⟩ := ih kept returned
      refine ⟨kept, fewer.cons _, ?_⟩
      intro place ready
      have apart : place ≠ chosen := by
        rintro rfl
        exact ready.not_own _ _ asked
      obtain ⟨same, still⟩ := spared place ready
      refine ⟨?_, ?_⟩
      · rw [same, paid, if_neg apart, Int.sub_zero]
      · intro idle
        apply still
        simp [occupied, apart, idle]
    next =>
      obtain ⟨⟨progress, remaining⟩, first, returned⟩ := bind_ok returned
      cases pure_ok returned
      obtain ⟨kept, fewer, spared⟩ := ih counted first
      exact ⟨kept, fewer.cons_cons _, spared⟩

private theorem giveSlot_keeps_close (counted : Counted setting before) (here : ∀ duty ∈ duties, duty.slot = slot)
    (sorted : duties.Pairwise fun first second => second.duration ≤ first.duration)
    (short : ∀ duty ∈ duties, (duty.duration : Int) ≤ bound) (one : Ready setting slot i)
    (two : Ready setting slot j) (apart : i ≠ j) (close : Close setting before i j bound)
    (returned : giveSlot setting before duties = .ok after) :
    Counted setting after ∧ Close setting after i j bound := by
  obtain ⟨⟨middle, others⟩, owned, returned⟩ := bind_ok returned
  have fresh : Counted setting { before with busy := [] } := counted
  obtain ⟨kept, fewer, spared⟩ := giveOwn_spares fresh owned
  obtain ⟨first, idle⟩ := spared i one
  obtain ⟨second, free⟩ := spared j two
  have run := giveOpen_run returned
  refine ⟨run_counted run kept, ?_⟩
  apply run_keeps_close run kept (fun duty member => here duty (fewer.mem member)) (sorted.sublist fewer)
    (fun duty member => short duty (fewer.mem member)) one two apart (idle nofun) (free nofun)
  rwa [Close, first, second]

private theorem giveSlots_keep_close {agenda : Agenda Duty} (counted : Counted setting before)
    (here : ∀ slot duties, (slot, duties) ∈ agenda → ∀ duty ∈ duties, duty.slot = slot)
    (sorted : ∀ slot duties, (slot, duties) ∈ agenda →
      duties.Pairwise fun first second => second.duration ≤ first.duration)
    (short : ∀ duty ∈ agenda.values, (duty.duration : Int) ≤ bound)
    (one : ∀ slot ∈ agenda.map (·.1), Ready setting slot i)
    (two : ∀ slot ∈ agenda.map (·.1), Ready setting slot j) (apart : i ≠ j)
    (close : Close setting before i j bound)
    (returned : agenda.foldlM (fun progress item => giveSlot setting progress item.2) before = .ok after) :
    Counted setting after ∧ Close setting after i j bound := by
  apply foldlM_keeps_each (fun progress => Counted setting progress ∧ Close setting progress i j bound) _
    ⟨counted, close⟩ returned
  intro item listed first last held given
  have needed := List.mem_map_of_mem (f := (·.1)) listed
  exact giveSlot_keeps_close held.1 (here _ _ listed) (sorted _ _ listed)
    (fun duty member => short duty (List.mem_flatMap.mpr ⟨item, listed, member⟩)) (one _ needed) (two _ needed)
    apart held.2 given

private theorem exists_balance (setting : Setting) (assigned : List Nat) (listed : member ∈ setting.members) :
    member.id ∈ (balances setting assigned).map (·.invigilator) := by
  rw [balances_ids]
  exact List.mem_map_of_mem listed

private theorem mem_balances {assigned : List Nat} {balance : Balance} (listed : balance ∈ balances setting assigned) :
    ∃ place member, setting.members[place]? = some member ∧ member.id = balance.invigilator ∧
      (balance.required : Int) = owed setting (setting.members.map fun _ => 0) place ∧
      balance.deviation = -owed setting assigned place := by
  obtain ⟨place, member, here, rfl⟩ := mem_balances_iff.mp listed
  refine ⟨place, member, here, rfl, ?_, ?_⟩
  · have nothing : (setting.members.map fun _ => 0).getD place 0 = 0 := by
      rw [List.getD_eq_getElem?_getD, List.getElem?_map, here]
      rfl
    rw [owed, nothing]
    exact (Int.sub_zero _).symm
  · rw [owed, Int.neg_sub]
    rfl

/-- Somebody who takes part, is there in every slot with duties, and examines nothing. -/
structure Uncommitted (config : Config) (calendar : Calendar) (scheduled : Agenda Exam)
    (agenda : Agenda Duty) (invigilator : Invigilator) : Prop where
  included : (overrideOf config.invigilatorOverrides invigilator.id).excluded = false
  serves : ∀ slot ∈ agenda.map (·.1), Serves config calendar invigilator slot
  examines : ∀ exam ∈ scheduled.values, exam.examiner ≠ invigilator.id

theorem Uncommitted.ready {agenda : Agenda Duty} {invigilator : Invigilator}
    (uncommitted : Uncommitted config calendar scheduled agenda invigilator)
    (staffed : Staffed invigilators config seatings scheduled calendar report setting after)
    (ids : (invigilators.map (·.id)).Nodup) (known : invigilator ∈ invigilators)
    (listed : setting.members[place]? = some member) (same : member.id = invigilator.id)
    (slot : Slot) (needed : slot ∈ agenda.map (·.1)) : Ready setting slot place := by
  have pooled := List.mem_of_getElem? listed
  rw [staffed.pool] at pooled
  obtain ⟨other, present, -, rfl⟩ := mem_members.mp pooled
  obtain rfl := Lookups.eq_of_key ids present known same
  obtain ⟨-, slots, days⟩ := uncommitted.serves slot needed
  rw [Ready, staffed.exams, staffed.dates]
  refine ⟨_, listed, isAvailable_iff.mpr ⟨?_, ?_⟩, uncommitted.examines⟩
  · rwa [List.mem_append, not_or]
  · intro day here
    rw [List.mem_append, not_or]
    exact days day here

def longestDuty (agenda : Agenda Duty) : Nat := longest (agenda.values.map (·.duration))

private theorem staffed_keeps_close {agenda : Agenda Duty}
    (staffed : Staffed invigilators config seatings scheduled calendar report setting after)
    (planned : agenda = Staffing.duties seatings config.invigilation.reserveMinRooms)
    (one : ∀ slot ∈ agenda.map (·.1), Ready setting slot i) (two : ∀ slot ∈ agenda.map (·.1), Ready setting slot j)
    (apart : i ≠ j) (longer : (longestDuty agenda : Int) ≤ bound)
    (start : Close setting ⟨setting.members.map fun _ => 0, [], [], []⟩ i j bound) :
    Close setting after i j bound := by
  subst planned
  have counted : Counted setting ⟨setting.members.map fun _ => 0, [], [], []⟩ := List.length_map _
  refine (giveSlots_keep_close counted ?_ ?_ ?_ one two apart start staffed.given).2
  · intro slot duties listed
    exact (duties_shift listed).slot_eq
  · intro slot duties listed
    exact duties_sorted listed
  · intro duty listed
    have atMost := le_longest (List.mem_map_of_mem (f := (·.duration)) listed)
    exact (Int.ofNat_le.mpr atMost).trans longer

/-- Two members without exams who can take every duty end at most the longest duty apart, or as far
apart as what is required of them. -/
theorem deviations_stay_close {first second : Invigilator} (ids : (invigilators.map (·.id)).Nodup)
    (balanced : Staffing.balance invigilators config seatings scheduled calendar = .ok report)
    (one : first ∈ invigilators) (two : second ∈ invigilators)
    (free : ∀ invigilator ∈ [first, second], Uncommitted config calendar scheduled
      (Staffing.duties seatings config.invigilation.reserveMinRooms) invigilator) :
    first.id ∈ report.balances.map (·.invigilator) ∧ second.id ∈ report.balances.map (·.invigilator) ∧
      ∀ a ∈ report.balances, ∀ b ∈ report.balances, a.invigilator = first.id → b.invigilator = second.id →
        |a.deviation - b.deviation| ≤
            max (longestDuty (Staffing.duties seatings config.invigilation.reserveMinRooms) : Int)
              |(a.required : Int) - b.required| ∧
          (a.required = b.required → |a.deviation - b.deviation| ≤
            longestDuty (Staffing.duties seatings config.invigilation.reserveMinRooms)) := by
  obtain ⟨setting, progress, staffed⟩ := balance_staffed balanced
  rw [List.forall_mem_cons, List.forall_mem_singleton] at free
  rw [staffed.balances_eq]
  have paired {invigilator : Invigilator} (known : invigilator ∈ invigilators)
      (included : (overrideOf config.invigilatorOverrides invigilator.id).excluded = false) :
      invigilator.id ∈ (balances setting progress.assigned).map (·.invigilator) := by
    have listed := mem_members.mpr ⟨invigilator, known, included, rfl⟩
    rw [← staffed.pool] at listed
    exact exists_balance setting progress.assigned listed
  refine ⟨paired one free.1.included, paired two free.2.included, ?_⟩
  intro a firstOf b secondOf same alike
  obtain ⟨i, member, listed, named, owes, deviates⟩ := mem_balances firstOf
  obtain ⟨j, other, present, called, must, differs⟩ := mem_balances secondOf
  generalize planned : Staffing.duties seatings config.invigilation.reserveMinRooms = agenda at free
  have close (bound : Int) (longer : (longestDuty agenda : Int) ≤ bound)
      (wider : |(a.required : Int) - b.required| ≤ bound) : |a.deviation - b.deviation| ≤ bound := by
    rw [deviates, differs, abs_sub_le_iff]
    by_cases apart : i = j
    · subst j
      rw [sub_self]
      exact ⟨(abs_nonneg _).trans wider, (abs_nonneg _).trans wider⟩
    obtain ⟨more, less⟩ := abs_sub_le_iff.mp wider
    have start : Close setting ⟨setting.members.map fun _ => 0, [], [], []⟩ i j bound := by
      rw [Close, ← owes, ← must]
      constructor <;> omega
    obtain ⟨less, more⟩ := staffed_keeps_close staffed planned.symm
      (free.1.ready staffed ids one listed (named.trans same))
      (free.2.ready staffed ids two present (called.trans alike)) apart longer start
    constructor <;> omega
  refine ⟨close _ (le_max_left ..) (le_max_right ..), ?_⟩
  intro equal
  apply close _ (Int.le_refl _)
  rw [equal, sub_self, abs_zero]
  exact Int.natCast_nonneg _

/-- `dan` watches the reserve, and `eve` a room for an hour. -/
theorem half_an_hour_apart :
    ∃ report, Staffing.balance morningStaff absences morningRooms morning july = .ok report ∧
      report.balances.map (·.deviation) = [30, -60, -60, 30, 0] ∧
      ∀ a ∈ report.balances, ∀ b ∈ report.balances, a.invigilator = "dan" → b.invigilator = "eve" →
        |a.deviation - b.deviation| ≤ max 90 |(a.required : Int) - b.required| := by
  have given : (Staffing.balance morningStaff absences morningRooms morning july).toOption.map
      (fun report => report.balances.map (·.deviation)) = some [30, -60, -60, 30, 0] := by decide +kernel
  have dan : (⟨"dan", 1, 0, [], []⟩ : Invigilator) ∈ morningStaff := by decide +kernel
  have eve : (⟨"eve", 1, 0, [], []⟩ : Invigilator) ∈ morningStaff := by decide +kernel
  have nothing : ∀ invigilator ∈ [(⟨"dan", 1, 0, [], []⟩ : Invigilator), ⟨"eve", 1, 0, [], []⟩],
      overrideOf absences.invigilatorOverrides invigilator.id = {} ∧ invigilator.excludedDays = [] ∧
        invigilator.excludedSlots = [] ∧ ∀ exam ∈ morning.values, exam.examiner ≠ invigilator.id := by
    decide +kernel
  have free : ∀ invigilator ∈ [(⟨"dan", 1, 0, [], []⟩ : Invigilator), ⟨"eve", 1, 0, [], []⟩],
      Uncommitted absences july morning
        (Staffing.duties morningRooms absences.invigilation.reserveMinRooms) invigilator := by
    intro invigilator listed
    obtain ⟨overridden, days, slots, examines⟩ := nothing invigilator listed
    refine ⟨by rw [overridden], fun slot _ => ⟨by rw [overridden], ?_, ?_⟩, examines⟩
    · simp [slots, overridden]
    · simp [days, overridden]
  have longest : longestDuty (Staffing.duties morningRooms absences.invigilation.reserveMinRooms) = 90 := by
    decide +kernel
  cases balanced : Staffing.balance morningStaff absences morningRooms morning july with
  | error =>
    rw [balanced] at given
    cases given
  | ok report =>
    rw [balanced] at given
    obtain ⟨-, -, close⟩ := deviations_stay_close (by decide) balanced dan eve free
    rw [longest] at close
    exact ⟨report, rfl, Option.some.inj given, fun a firstOf b secondOf same alike =>
      (close a firstOf b secondOf same alike).1⟩

end Timetable.Proofs.StaffBalance
