import Timetable.Outcome
import Timetable.Proofs.DoubleSigns
import Timetable.Proofs.InputChecks
import Timetable.Proofs.StaffExclusions
import Timetable.Proofs.Tallies

/-! Balances that are reached. Factors that pass the checks let nobody owe less than nothing, and nobody is
given more minutes than all duties have, so the totals alone decide whether a balance is reached. -/

namespace Timetable.Proofs.StaffingReturns
open Staffing StaffExclusions DoubleSigns InputChecks Returned Tallies

variable {setting : Setting} {progress : Progress} {duty : Duty} {duties rest : List Duty} {member : Member}
  {place : Nat} {ownExam : Bool} {factor totalFactors : Double} {totalDuty totalOther other : Nat}
  {members : List Member} {agenda : Agenda Duty}

private theorem atLeastZero_of_valid (valid : Validation.isValidFactor factor = true) : AtLeastZero factor := by
  rw [Validation.isValidFactor, Bool.and_eq_true, Bool.not_eq_true', decide_eq_false_iff_not] at valid
  exact atLeastZero_of_not_lt valid.2

/-- Nobody owes so little that the subtraction leaves its range. -/
theorem requiredMinutes_returns (least : AtLeastZero factor) (duty : totalDuty < numberLimit)
    (elsewhere : totalOther < numberLimit) (own : other ≤ totalOther) :
    ∃ minutes, requiredMinutes totalDuty totalOther totalFactors factor other = .ok minutes := by
  rw [numberLimit] at duty elsewhere
  unfold requiredMinutes
  split
  next => exact ⟨_, rfl⟩
  next above =>
    have word : UInt32.size < UInt64.size := by decide
    have sum : AtLeastZero (.ofNat totalDuty + .ofNat totalOther) :=
      atLeastZero_add (atLeastZero_ofNat (duty.trans word)) (atLeastZero_ofNat (elsewhere.trans word))
    have share := nearestInt64_nonneg (atLeastZero_mul (atLeastZero_div sum (plain_of_not_le above)) least)
    have small : other < 2 ^ 32 := own.trans_lt elsewhere
    dsimp only
    rw [if_neg (by omega)]
    exact ⟨_, rfl⟩

private theorem requiredOf_returns (agenda : Agenda Duty)
    (least : ∀ member ∈ members, AtLeastZero member.invigilator.factor) :
    (∃ required, requiredOf members agenda = .ok required) ↔
      total (agenda.values.map (·.duration)) < numberLimit ∧
        total (members.map (·.invigilator.otherContributions)) < numberLimit := by
  unfold requiredOf
  rw [numberSum_eq, numberSum_eq]
  constructor
  · rintro ⟨required, returned⟩
    obtain ⟨totalDuty, first, returned⟩ := bind_ok returned
    obtain ⟨totalOther, second, -⟩ := bind_ok returned
    exact ⟨numberOf_returns.mp ⟨_, first⟩, numberOf_returns.mp ⟨_, second⟩⟩
  · rintro ⟨duty, elsewhere⟩
    rw [ok_bind (numberOf_of_lt duty), ok_bind (numberOf_of_lt elsewhere)]
    apply exists_mapM_iff.mpr
    intro member listed
    exact requiredMinutes_returns (least member listed) duty elsewhere
      (Ordering.le_total (List.mem_map_of_mem listed))

/-- Whoever is given all of these duties is still given a number of minutes. -/
def Bears (progress : Progress) (duties : List Duty) : Prop :=
  ∀ place, progress.assigned.getD place 0 + total (duties.map (·.duration)) < numberLimit

theorem Bears.perm {others : List Duty} (bears : Bears progress duties) (same : duties.Perm others) :
    Bears progress others := by
  intro place
  rw [← Ordering.total_perm (same.map _)]
  exact bears place

theorem Bears.tail (bears : Bears progress (duty :: rest)) : Bears progress rest := by
  intro place
  have all := bears place
  rw [List.map_cons, Ordering.total_cons] at all
  omega

private theorem give_returns (bears : Bears progress (duty :: rest)) :
    Returns (progress.give member place duty ownExam) (Bears · rest) := by
  simp only [Bears, List.map_cons, Ordering.total_cons] at bears
  have fits : progress.assigned.getD place 0 + duty.duration < numberLimit := by
    have all := bears place
    omega
  refine ⟨_, ok_bind (numberOf_of_lt fits), fun other => ?_⟩
  have before := bears other
  by_cases same : place = other
  · subst other
    by_cases inside : place < progress.assigned.length
    · simp only [List.getD_eq_getElem?_getD, List.getElem?_set_self inside, Option.getD_some] at before ⊢
      omega
    · simp only [List.set_eq_of_length_le (Nat.le_of_not_lt inside)]
      omega
  · simp only [List.getD_eq_getElem?_getD, List.getElem?_set_ne same] at before ⊢
    omega

private theorem giveOwn_returns (bears : Bears progress (duties ++ rest)) :
    Returns (giveOwn setting progress duties) fun (after, others) => Bears after (others ++ rest) := by
  induction duties generalizing progress rest with
  | nil => exact ⟨_, rfl, bears⟩
  | cons duty duties ih =>
    unfold giveOwn
    split
    next => exact (give_returns bears).bind fun _ left => ih left
    next =>
      refine (ih (bears.perm List.perm_middle.symm)).bind fun _ left => ?_
      exact ⟨_, rfl, left.perm List.perm_middle⟩

private theorem giveOpen_returns (bears : Bears progress (duty :: rest)) :
    Returns (giveOpen setting progress duty) (Bears · rest) := by
  unfold giveOpen
  split
  next => exact give_returns bears
  next => exact ⟨_, rfl, bears.tail⟩

private theorem giveSlot_returns (bears : Bears progress (duties ++ rest)) :
    Returns (giveSlot setting progress duties) (Bears · rest) := by
  have idle : Bears { progress with busy := [] } (duties ++ rest) := bears
  refine (giveOwn_returns idle).bind fun result left => ?_
  exact returns_foldlM_rest (fun progress duties => Bears progress (duties ++ rest))
    (fun _ _ _ => giveOpen_returns) left

private theorem giveSlots_returns (bears : Bears progress agenda.values) :
    Returns (agenda.foldlM (fun progress item => giveSlot setting progress item.2) progress) fun _ => True :=
  (returns_foldlM_rest (fun progress agenda => Bears progress (Agenda.values agenda))
    (fun _ _ _ => giveSlot_returns) bears).mono fun _ _ => trivial

variable {input : PlanningInput} {config : Config} {seatings : List Seating} {scheduled : Agenda Exam}
  {calendar : Calendar}

theorem members_atLeastZero (valid : validate input = .ok ()) (overrides : Table InvigilatorOverride) :
    ∀ member ∈ Staffing.members input.invigilators overrides, AtLeastZero member.invigilator.factor := by
  intro member listed
  obtain ⟨invigilator, present, -, rfl⟩ := mem_members.mp listed
  have sound := (problems_eq_nil_iff.mp (validate_ok_iff.mp valid)).2.2.2.2.2.1
  exact atLeastZero_of_valid (staffProblems_eq_nil_iff.mp sound invigilator present)

private theorem bears_start (members : List Member) (below : total (duties.map (·.duration)) < numberLimit) :
    Bears ⟨members.map fun _ => 0, [], [], []⟩ duties := by
  intro place
  have nothing : (members.map fun _ => 0).getD place 0 = 0 := by
    rw [List.getD_eq_getElem?_getD, List.getElem?_map]
    cases members[place]? <;> rfl
  rw [nothing, Nat.zero_add]
  exact below

/-- An input that passes the checks is balanced exactly if the minutes of all duties of a room plan are a
number together, and so are the minutes that its members contribute elsewhere. -/
theorem balancing_runs_to_the_end (valid : validate input = .ok ()) :
    (∃ report, balance input.invigilators config seatings scheduled calendar = .ok report) ↔
      total ((Staffing.duties seatings config.invigilation.reserveMinRooms).values.map (·.duration)) <
          numberLimit ∧
        total ((Staffing.members input.invigilators config.invigilatorOverrides).map
          (·.invigilator.otherContributions)) < numberLimit := by
  have returns := requiredOf_returns (Staffing.duties seatings config.invigilation.reserveMinRooms)
    (members_atLeastZero valid config.invigilatorOverrides)
  constructor
  · rintro ⟨report, returned⟩
    obtain ⟨required, first, -⟩ := bind_ok returned
    exact returns.mp ⟨required, first⟩
  · intro below
    obtain ⟨required, first⟩ := returns.mpr below
    obtain ⟨progress, given, -⟩ := giveSlots_returns (bears_start _ below.1)
    exact ⟨_, (ok_bind first).trans (ok_bind given)⟩

def oneExam (duration elsewhere : Nat) : PlanningInput where
  period := ⟨[⟨⟨1, 1⟩, ⟨⟨2025, 7, 1⟩, ⟨8, 30, 0, 0⟩⟩⟩], []⟩
  exams := [
    { ancode := 1, title := "", examiner := "prof", duration, category := .regular,
      registrations := [⟨"IF", ["a"]⟩], constraints := {} }]
  accommodations := []
  rooms := [⟨"R1", 1, false, false, false, false⟩]
  invigilators := [⟨"ada", 1, elsewhere, [], []⟩, ⟨"bob", 1, elsewhere, [], []⟩]
  committed := []
  pinned := []

def onlySlot : Plan := .ofPlacements [⟨1, ⟨1, 1⟩⟩]

def groupsOf (input : PlanningInput) : List ExamGroup :=
  ((Grouping.build (input.calendar {}) input.exams input.committed).toOption.map (·.groups)).getD []

def seatOneExam (duration elsewhere : Nat) : Except Fault RoomPlan :=
  let input := oneExam duration elsewhere
  (Allocator.ofConfig input.rooms {}).allocate (examsNeedingRooms onlySlot (groupsOf input) input.exams)
    input.accommodations input.pinned

def staffOneExam (duration elsewhere : Nat) (seatings : List Seating) : Except Fault StaffingReport :=
  let input := oneExam duration elsewhere
  balance input.invigilators {} seatings (scheduledExams onlySlot (groupsOf input) input.exams) (input.calendar {})

/-- A room and the reserve are watched for an hour and a half each. -/
theorem one_exam_is_staffed :
    validate (oneExam 90 30) = .ok () ∧
      total ((Staffing.duties [⟨⟨1, 1⟩, "R1", 1, 90, ["a"], false, false⟩] 1).values.map (·.duration)) = 180 ∧
      total ((Staffing.members (oneExam 90 30).invigilators []).map
        (·.invigilator.otherContributions)) = 60 ∧
      ∃ report, staffOneExam 90 30 [⟨⟨1, 1⟩, "R1", 1, 90, ["a"], false, false⟩] = .ok report := by
  have valid : validate (oneExam 90 30) = .ok () := by decide +kernel
  have room : total ((Staffing.duties [⟨⟨1, 1⟩, "R1", 1, 90, ["a"], false, false⟩] 1).values.map
      (·.duration)) = 180 := by decide +kernel
  have elsewhere : total ((Staffing.members (oneExam 90 30).invigilators []).map
      (·.invigilator.otherContributions)) = 60 := by decide +kernel
  refine ⟨valid, room, elsewhere, (balancing_runs_to_the_end valid).mpr ⟨?_, ?_⟩⟩
  · exact room.trans_lt (by decide)
  · exact elsewhere.trans_lt (by decide)

/-- The minutes of one room and its reserve together are no number, or those that two invigilators contribute
elsewhere. -/
theorem valid_rooms_are_not_balanced :
    (validate (oneExam 0x80000000 0) = .ok () ∧ ∃ rooms, seatOneExam 0x80000000 0 = .ok rooms ∧
      staffOneExam 0x80000000 0 rooms.seatings = .error .overflow) ∧
    validate (oneExam 90 0x80000000) = .ok () ∧ ∃ rooms, seatOneExam 90 0x80000000 = .ok rooms ∧
      staffOneExam 90 0x80000000 rooms.seatings = .error .overflow := by
  refine ⟨⟨?_, ⟨[⟨⟨1, 1⟩, "R1", 1, 0x80000000, ["a"], false, false⟩], []⟩, ?_, ?_⟩,
    ?_, ⟨[⟨⟨1, 1⟩, "R1", 1, 90, ["a"], false, false⟩], []⟩, ?_, ?_⟩ <;> decide +kernel

end Timetable.Proofs.StaffingReturns
