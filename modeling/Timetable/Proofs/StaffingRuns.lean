import Timetable.Proofs.Lookups
import Timetable.Proofs.Ordering
import Timetable.Proofs.Returned
import Timetable.Staffing.Balance

/-! A slot is staffed by a run of steps, one for each duty in the order in which they are decided:
first those that examiners take, then all others. What holds of a duty that is given to somebody is
shown for one step, and a run never gives two of them to the same member. -/

namespace Timetable.Proofs.StaffingRuns
open Staffing Returned

inductive Step (setting : Setting) (before : Progress) (duty : Duty) : Progress → Prop where
  /-- An examiner watches the room of an own exam. -/
  | own {member : Member} {place : Nat} {after : Progress}
      (chosen : ownInvigilator? setting before.busy duty = some (member, place))
      (given : before.give member place duty true = .ok after) : Step setting before duty after
  | other {member : Member} {place : Nat} {after : Progress}
      (chosen : furthestBehind? setting before duty.slot = some (member, place))
      (given : before.give member place duty false = .ok after) : Step setting before duty after
  | left (nobody : furthestBehind? setting before duty.slot = none) :
      Step setting before duty (before.leaveOpen duty)

inductive Run (setting : Setting) : Progress → List Duty → Progress → Prop where
  | done (progress : Progress) : Run setting progress [] progress
  | next {before middle after : Progress} {duty : Duty} {duties : List Duty}
      (first : Step setting before duty middle) (rest : Run setting middle duties after) :
      Run setting before (duty :: duties) after

variable {setting : Setting} {before middle after : Progress} {duty : Duty} {duties others : List Duty}
  {member : Member} {place : Nat} {ownExam : Bool} {invigilation : Invigilation}

theorem Run.append (first : Run setting before duties middle) (rest : Run setting middle others after) :
    Run setting before (duties ++ others) after := by
  induction first with
  | done => exact rest
  | next step _ ih => exact .next step (ih rest)

private theorem giveOwn_run (returned : giveOwn setting before duties = .ok (after, others)) :
    ∃ own, Run setting before own after ∧ (own ++ others).Perm duties := by
  induction duties generalizing before others with
  | nil =>
    cases returned
    exact ⟨[], .done _, .refl _⟩
  | cons duty rest ih =>
    unfold giveOwn at returned
    split at returned
    next member place chosen =>
      obtain ⟨middle, given, returned⟩ := bind_ok returned
      obtain ⟨own, run, same⟩ := ih returned
      exact ⟨duty :: own, .next (.own chosen given) run, same.cons duty⟩
    next =>
      obtain ⟨⟨progress, remaining⟩, first, returned⟩ := bind_ok returned
      cases pure_ok returned
      obtain ⟨own, run, same⟩ := ih first
      exact ⟨own, run, List.perm_middle.trans (same.cons duty)⟩

private theorem giveOpen_step (returned : giveOpen setting before duty = .ok after) :
    Step setting before duty after := by
  unfold giveOpen at returned
  split at returned
  next member place chosen => exact .other chosen returned
  next nobody =>
    cases returned
    exact .left nobody

theorem giveOpen_run (returned : duties.foldlM (giveOpen setting) before = .ok after) :
    Run setting before duties after := by
  induction duties generalizing before with
  | nil =>
    cases pure_ok returned
    exact .done _
  | cons duty rest ih =>
    rw [List.foldlM_cons] at returned
    obtain ⟨middle, first, returned⟩ := bind_ok returned
    exact .next (giveOpen_step first) (ih returned)

/-- Every duty of a slot is decided once, and nobody is busy at the beginning. -/
theorem giveSlot_run (returned : giveSlot setting before duties = .ok after) :
    ∃ order, order.Perm duties ∧ Run setting { before with busy := [] } order after := by
  obtain ⟨⟨middle, others⟩, owned, returned⟩ := bind_ok returned
  obtain ⟨own, first, same⟩ := giveOwn_run owned
  exact ⟨own ++ others, same, first.append (giveOpen_run returned)⟩

theorem give_ok (returned : before.give member place duty ownExam = .ok after) :
    ∃ minutes, numberOf (before.assigned.getD place 0 + duty.duration) = .ok minutes ∧
      after = { before with
        assigned := before.assigned.set place minutes
        invigilations := before.invigilations
          ++ [⟨duty.slot, duty.room, member.id, duty.duration, ownExam⟩]
        busy := place :: before.busy } := by
  obtain ⟨minutes, counted, returned⟩ := bind_ok returned
  exact ⟨minutes, counted, (pure_ok returned).symm⟩

structure Suits (setting : Setting) (place : Nat) (duty : Duty) (invigilation : Invigilation) : Prop where
  slot : invigilation.slot = duty.slot
  room : invigilation.room = duty.room
  available : ∃ member, setting.members[place]? = some member ∧ member.id = invigilation.invigilator ∧
    member.isAvailable duty.slot (setting.calendar.dateOf? duty.slot) = true
  elsewhere : invigilation.ownExam = false →
    ∀ exam ∈ setting.scheduled.under duty.slot, exam.examiner ≠ invigilation.invigilator
  own : invigilation.ownExam = true → ∃ room, duty.room = some room ∧ ∃ ancode ∈ duty.exams,
    (roomsOf setting.seatings duty.slot ancode).length = 1 ∧
      examinerOf? setting.scheduled ancode = some invigilation.invigilator

theorem memberOf?_spec {members : List Member} {id : StaffId}
    (found : memberOf? members id = some (member, place)) :
    members[place]? = some member ∧ member.id = id := by
  have listed := List.mk_mem_zipIdx_iff_getElem?.mp (List.mem_of_find?_eq_some found)
  have same := List.find?_some found
  exact ⟨listed, of_decide_eq_true same⟩

theorem memberOf?_listed {members : List Member} (ids : (members.map (·.id)).Nodup)
    (listed : members[place]? = some member) : memberOf? members member.id = some (member, place) := by
  rw [← Lookups.map_zipIdx_key] at ids
  exact Lookups.find?_key ids (List.mk_mem_zipIdx_iff_getElem?.mpr listed)

/-- An examiner takes a room if the exam sits in no other and they are free. -/
theorem examinerFor?_eq_some {busy : List Nat} {slot : Slot} {ancode : Ancode} :
    examinerFor? setting busy slot ancode = some (member, place) ↔
      (roomsOf setting.seatings slot ancode).length = 1 ∧
        ∃ id, examinerOf? setting.scheduled ancode = some id ∧
          memberOf? setting.members id = some (member, place) ∧ place ∉ busy ∧
          member.isAvailable slot (setting.calendar.dateOf? slot) = true := by
  unfold examinerFor?
  by_cases single : (roomsOf setting.seatings slot ancode).length = 1
  · simp only [single, ne_eq, not_true_eq_false, if_false, true_and]
    constructor
    · intro found
      obtain ⟨id, examiner, found⟩ := Option.bind_eq_some_iff.mp found
      obtain ⟨chosen, listed, found⟩ := Option.bind_eq_some_iff.mp found
      split at found
      next => cases found
      next free =>
        cases found
        simp only [Bool.or_eq_true, not_or, List.contains_eq_mem, decide_eq_true_eq, Bool.not_eq_true',
          Bool.not_eq_false] at free
        exact ⟨id, examiner, listed, free⟩
    · intro found
      obtain ⟨id, examiner, listed, idle, available⟩ := found
      simp [examiner, listed, idle, available]
  · simp [single]

theorem ownInvigilator?_spec {busy : List Nat}
    (chosen : ownInvigilator? setting busy duty = some (member, place)) :
    place ∉ busy ∧ Suits setting place duty ⟨duty.slot, duty.room, member.id, duty.duration, true⟩ := by
  unfold ownInvigilator? at chosen
  split at chosen
  next => cases chosen
  next room inRoom =>
    obtain ⟨ancode, exam, found⟩ := List.exists_of_findSome?_eq_some chosen
    obtain ⟨single, id, examiner, found, idle, available⟩ := examinerFor?_eq_some.mp found
    obtain ⟨listed, same⟩ := memberOf?_spec found
    refine ⟨idle, rfl, rfl, ⟨member, listed, rfl, available⟩, nofun, fun _ => ?_⟩
    exact ⟨room, inRoom, ancode, exam, single, examiner.trans (congrArg some same.symm)⟩

theorem furthestBehind?_spec (chosen : furthestBehind? setting before duty.slot = some (member, place)) :
    place ∉ before.busy ∧
      Suits setting place duty ⟨duty.slot, duty.room, member.id, duty.duration, false⟩ := by
  obtain ⟨listed, eligible⟩ := List.mem_filter.mp (Ordering.lastMax?_mem chosen)
  simp only [isEligible, Bool.and_eq_true, Bool.not_eq_true', List.contains_eq_mem,
    decide_eq_false_iff_not, List.any_eq_false, decide_eq_true_eq] at eligible
  obtain ⟨⟨idle, elsewhere⟩, available⟩ := eligible
  refine ⟨idle, rfl, rfl, ⟨member, ?_, rfl, available⟩, fun _ => elsewhere, nofun⟩
  exact List.mk_mem_zipIdx_iff_getElem?.mp listed

/-- A step gives its duty to a member who has none yet, or to nobody. -/
theorem Step.given (step : Step setting before duty after) :
    (∃ place invigilation, place ∉ before.busy ∧ Suits setting place duty invigilation ∧
        after.invigilations = before.invigilations ++ [invigilation] ∧
        after.busy = place :: before.busy) ∨
      after.invigilations = before.invigilations ∧ after.busy = before.busy := by
  cases step with
  | own chosen given =>
    obtain ⟨idle, suits⟩ := ownInvigilator?_spec chosen
    obtain ⟨minutes, -, rfl⟩ := give_ok given
    exact .inl ⟨_, _, idle, suits, rfl, rfl⟩
  | other chosen given =>
    obtain ⟨idle, suits⟩ := furthestBehind?_spec chosen
    obtain ⟨minutes, -, rfl⟩ := give_ok given
    exact .inl ⟨_, _, idle, suits, rfl, rfl⟩
  | left => exact .inr ⟨rfl, rfl⟩

/-- What a run gives out goes to members who had nothing before, and to nobody twice. -/
theorem Run.given (ids : (setting.members.map (·.id)).Nodup) (run : Run setting before duties after) :
    ∃ given, after.invigilations = before.invigilations ++ given ∧
      (given.map (·.room)).Sublist (duties.map (·.room)) ∧
      given.Pairwise (fun first second => first.invigilator ≠ second.invigilator) ∧
      ∀ invigilation ∈ given, ∃ place, place ∉ before.busy ∧
        ∃ duty ∈ duties, Suits setting place duty invigilation := by
  induction run with
  | done => exact ⟨[], by simp⟩
  | @next before middle after duty duties first _ ih =>
    obtain ⟨given, listed, rooms, apart, all⟩ := ih
    have later : ∀ invigilation ∈ given, ∃ place, place ∉ middle.busy ∧
        ∃ other ∈ duty :: duties, Suits setting place other invigilation := by
      intro invigilation member
      obtain ⟨place, idle, other, present, suits⟩ := all invigilation member
      exact ⟨place, idle, other, List.mem_cons_of_mem _ present, suits⟩
    cases first.given with
    | inl granted =>
      obtain ⟨place, invigilation, idle, suits, noted, busy⟩ := granted
      rw [busy] at later
      refine ⟨invigilation :: given, ?_, ?_, List.pairwise_cons.mpr ⟨?_, apart⟩, ?_⟩
      · rw [listed, noted, List.append_assoc, List.singleton_append]
      · rw [List.map_cons, List.map_cons, suits.room]
        exact rooms.cons_cons _
      · intro other member same
        obtain ⟨elsewhere, fresh, duty, -, given⟩ := later other member
        obtain ⟨one, here, equal, -⟩ := suits.available
        obtain ⟨two, there, alike, -⟩ := given.available
        apply fresh
        rw [Lookups.place_of_key ids there here (alike.trans (same.symm.trans equal.symm))]
        exact List.mem_cons_self
      · intro other member
        cases member with
        | head => exact ⟨place, idle, duty, List.mem_cons_self, suits⟩
        | tail _ member =>
          obtain ⟨elsewhere, fresh, rest⟩ := later other member
          exact ⟨elsewhere, fun busy => fresh (List.mem_cons_of_mem _ busy), rest⟩
    | inr nobody =>
      rw [nobody.2] at later
      refine ⟨given, listed.trans (by rw [nobody.1]), ?_, apart, later⟩
      rw [List.map_cons]
      exact rooms.cons _

theorem ownInvigilator?_listed {busy : List Nat}
    (chosen : ownInvigilator? setting busy duty = some (member, place)) :
    setting.members[place]? = some member := by
  unfold ownInvigilator? at chosen
  split at chosen
  next => cases chosen
  next =>
    obtain ⟨ancode, -, found⟩ := List.exists_of_findSome?_eq_some chosen
    obtain ⟨-, id, -, found, -⟩ := examinerFor?_eq_some.mp found
    exact (memberOf?_spec found).1

private theorem furthestBehind?_listed {slot : Slot}
    (chosen : furthestBehind? setting before slot = some (member, place)) :
    setting.members[place]? = some member :=
  List.mk_mem_zipIdx_iff_getElem?.mp (List.mem_filter.mp (Ordering.lastMax?_mem chosen)).1

/-- A duty goes to a member of the pool, or it stays open and nobody could have taken it. -/
theorem Step.decision (step : Step setting before duty after) :
    (∃ member place ownExam, setting.members[place]? = some member ∧
        before.give member place duty ownExam = .ok after) ∨
      furthestBehind? setting before duty.slot = none ∧ after = before.leaveOpen duty := by
  cases step with
  | own chosen given => exact .inl ⟨_, _, _, ownInvigilator?_listed chosen, given⟩
  | other chosen given => exact .inl ⟨_, _, _, furthestBehind?_listed chosen, given⟩
  | left nobody => exact .inr ⟨nobody, rfl⟩

theorem Run.keeps (kept : Progress → Prop) (run : Run setting before duties after)
    (step : ∀ duty ∈ duties, ∀ before after, kept before → Step setting before duty after → kept after)
    (start : kept before) : kept after := by
  induction run with
  | done => exact start
  | next first _ ih =>
    rw [List.forall_mem_cons] at step
    exact ih step.2 (step.1 _ _ start first)

/-- What every step keeps is kept over all slots, if it does not speak of who is busy in one of them. -/
theorem giveSlots_keep {agenda : Agenda Duty} (kept : Progress → Prop)
    (idle : ∀ progress, kept progress → kept { progress with busy := [] })
    (step : ∀ duty ∈ agenda.values, ∀ before after, kept before → Step setting before duty after → kept after)
    (start : kept before)
    (returned : agenda.foldlM (fun progress item => giveSlot setting progress item.2) before = .ok after) :
    kept after := by
  apply foldlM_keeps_each kept _ start returned
  intro item listed before after held given
  obtain ⟨order, same, run⟩ := giveSlot_run given
  apply run.keeps kept _ (idle before held)
  intro duty member
  exact step duty (List.mem_flatMap.mpr ⟨item, listed, same.mem_iff.mp member⟩)

/-- What has been given to somebody is not taken back. -/
theorem Step.invigilations_subset (step : Step setting before duty after) :
    before.invigilations ⊆ after.invigilations := by
  cases step.given with
  | inl granted =>
    obtain ⟨-, invigilation, -, -, noted, -⟩ := granted
    rw [noted]
    exact List.subset_append_left ..
  | inr nobody =>
    rw [nobody.1]
    exact List.Subset.refl _

theorem Run.invigilations_subset (run : Run setting before duties after) :
    before.invigilations ⊆ after.invigilations := by
  apply run.keeps (before.invigilations ⊆ ·.invigilations) _ (List.Subset.refl _)
  intro duty _ middle later grown step
  exact List.Subset.trans grown step.invigilations_subset

/-- The duties of a slot are given out at some time, and what they bring stays. -/
theorem giveSlots_reach {agenda : Agenda Duty} {item : Slot × List Duty} (listed : item ∈ agenda)
    (returned : agenda.foldlM (fun progress item => giveSlot setting progress item.2) before = .ok after) :
    ∃ first last, giveSlot setting first item.2 = .ok last ∧ last.invigilations ⊆ after.invigilations := by
  obtain ⟨front, back, rfl⟩ := List.append_of_mem listed
  rw [List.foldlM_append] at returned
  obtain ⟨first, -, returned⟩ := bind_ok returned
  rw [List.foldlM_cons] at returned
  obtain ⟨last, given, returned⟩ := bind_ok returned
  refine ⟨first, last, given, ?_⟩
  apply giveSlots_keep (last.invigilations ⊆ ·.invigilations) (fun _ => id) _ (List.Subset.refl _) returned
  intro duty _ middle later grown step
  exact List.Subset.trans grown step.invigilations_subset

def Occupied (setting : Setting) (kind : Invigilation → Prop) (progress : Progress) : Prop :=
  ∀ place ∈ progress.busy, ∀ member, setting.members[place]? = some member →
    ∃ invigilation ∈ progress.invigilations, invigilation.invigilator = member.id ∧ kind invigilation

theorem occupied_idle (setting : Setting) (kind : Invigilation → Prop) (progress : Progress) :
    Occupied setting kind { progress with busy := [] } := by
  intro place busy
  cases busy

theorem give_occupied {kind : Invigilation → Prop} (occupied : Occupied setting kind before)
    (listed : setting.members[place]? = some member)
    (suited : kind ⟨duty.slot, duty.room, member.id, duty.duration, ownExam⟩)
    (given : before.give member place duty ownExam = .ok after) : Occupied setting kind after := by
  obtain ⟨minutes, -, rfl⟩ := give_ok given
  intro other busy someone found
  cases List.mem_cons.mp busy with
  | inl same =>
    subst other
    cases listed.symm.trans found
    exact ⟨_, List.mem_append_right _ (List.mem_singleton_self _), rfl, suited⟩
  | inr earlier =>
    obtain ⟨invigilation, noted, same⟩ := occupied other earlier someone found
    exact ⟨invigilation, List.mem_append_left _ noted, same⟩

theorem balances_ids (setting : Setting) (assigned : List Nat) :
    (balances setting assigned).map (·.invigilator) = setting.members.map (·.id) := by
  rw [balances, List.map_map]
  exact Lookups.map_zipIdx_key Member.id setting.members

theorem mem_balances_iff {assigned : List Nat} {balance : Balance} : balance ∈ balances setting assigned ↔
    ∃ place member, setting.members[place]? = some member ∧
      balance = balanceOf member (setting.required.getD place 0) (assigned.getD place 0) := by
  simp only [balances, List.mem_map, Prod.exists, List.mk_mem_zipIdx_iff_getElem?, eq_comm (b := balance)]
  exact exists_comm

/-- A report with the run over all slots that it tells about. -/
structure Staffed (invigilators : List Invigilator) (config : Config) (seatings : List Seating)
    (scheduled : Agenda Exam) (calendar : Calendar) (report : StaffingReport) (setting : Setting)
    (progress : Progress) : Prop where
  pool : setting.members = members invigilators config.invigilatorOverrides
  rooms : setting.seatings = seatings
  exams : setting.scheduled = scheduled
  dates : setting.calendar = calendar
  given : (Staffing.duties seatings config.invigilation.reserveMinRooms).foldlM
    (fun progress item => giveSlot setting progress item.2)
    ⟨setting.members.map fun _ => 0, [], [], []⟩ = .ok progress
  invigilations_eq : report.invigilations = progress.invigilations
  balances_eq : report.balances = balances setting progress.assigned
  unassigned_eq : report.unassigned = progress.unassigned

theorem balance_staffed {invigilators : List Invigilator} {config : Config} {seatings : List Seating}
    {scheduled : Agenda Exam} {calendar : Calendar} {report : StaffingReport}
    (balanced : Staffing.balance invigilators config seatings scheduled calendar = .ok report) :
    ∃ setting progress, Staffed invigilators config seatings scheduled calendar report setting progress := by
  obtain ⟨required, -, balanced⟩ := bind_ok balanced
  obtain ⟨progress, given, balanced⟩ := bind_ok balanced
  obtain rfl := pure_ok balanced
  exact ⟨_, progress, rfl, rfl, rfl, rfl, given, rfl, rfl, rfl⟩

end Timetable.Proofs.StaffingRuns
