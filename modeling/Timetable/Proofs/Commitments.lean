import Timetable.Proofs.CommittedSearch
import Timetable.Proofs.PlacedGroups

/-! Placements that are committed before a plan is made. They go by the smallest exam of a group. While
that exam still leads a group the group keeps its slot; else the commitment counts for nothing. -/

namespace Timetable.Proofs.Commitments
open Grouping GroupMembership CommittedGroups CommittedSearch InputChecks PlacedGroups PlanStages

section
variable {calendar : Calendar} {exams members : List Exam} {committed : List Placement}
  {code other : GroupCode} {group : ExamGroup} {ancode : Ancode} {slot : Slot}

/-- All commitments but those for one group. -/
def without (committed : List Placement) (code : GroupCode) : List Placement :=
  committed.filter (·.group ≠ code)

private theorem committedSlot?_without (different : code ≠ other) :
    committedSlot? (without committed other) code = committedSlot? committed code := by
  rw [committedSlot?, committedSlot?, without, List.filter_filter]
  congr 2
  apply List.filter_congr
  intro placement _
  by_cases same : placement.group = code
  · simp [same, different]
  · simp [same]

private theorem countedGroup_without (different : (countedGroup calendar committed members).code ≠ other) :
    countedGroup calendar (without committed other) members
      = countedGroup calendar committed members := by
  simp only [countedGroup, bareGroup] at different ⊢
  rw [committedSlot?_without different]

private theorem grouped_without (unled : ∀ group ∈ found calendar exams committed, group.code ≠ other) :
    grouped calendar exams (without committed other) = grouped calendar exams committed := by
  have same : found calendar exams (without committed other) = found calendar exams committed := by
    apply List.map_congr_left
    intro members listed
    exact countedGroup_without (unled _ (List.mem_map_of_mem listed))
  rw [grouped, grouped, weights, weights, links, links, same]

/-- An exam of a group that is led by a smaller one leads no group. -/
theorem leads_none (distinct : (exams.map (·.ancode)).Nodup)
    (listed : group ∈ (grouped calendar exams committed).groups) (member : other ∈ group.exams)
    (leader : ancode ∈ group.exams) (smaller : ancode < other) :
    ∀ group ∈ found calendar exams committed, group.code ≠ other := by
  obtain ⟨bare, known, rfl⟩ := (mem_grouped distinct).mp listed
  intro second present same
  have shared : other ∈ second.exams := same ▸ found_code_mem present
  rw [found_eq_of_shared distinct present known shared member] at same
  have least := found_code_le known leader
  rw [same] at least
  exact Nat.not_lt_of_le least smaller

private theorem code_of_leader (distinct : (exams.map (·.ancode)).Nodup)
    (listed : group ∈ (grouped calendar exams committed).groups) (member : ancode ∈ group.exams)
    (leads : ∀ other ∈ group.exams, ancode ≤ other) : group.code = ancode := by
  obtain ⟨bare, known, rfl⟩ := (mem_grouped distinct).mp listed
  have atMost : bare.code ≤ ancode := found_code_le known member
  have own : bare.code ∈ bare.exams := found_code_mem known
  exact Nat.le_antisymm atMost (leads bare.code own)

private theorem recorded_of_committed (distinct : (exams.map (·.ancode)).Nodup)
    (listed : group ∈ (grouped calendar exams committed).groups)
    (chosen : committedSlot? committed group.code = some slot) : group.state.recorded? = some slot := by
  obtain ⟨members, -, code, -, state, -⟩ := group_members distinct listed
  rw [code] at chosen
  rw [state]
  simp only [countedGroup, bareGroup] at chosen ⊢
  rw [chosen, stateOf_committed]
  split <;> rfl

private theorem placeable_of_recorded (recorded : group.state.recorded? = some slot) :
    group.isPlaceable = true := by
  rw [ExamGroup.isPlaceable]
  cases state : group.state with
  | scheduled => rfl
  | locked => rfl
  | external known =>
    rw [state] at recorded
    change known = some slot at recorded
    rw [recorded]
    rfl

end

section
variable {input : PlanningInput} {config : Config} {outcome : Outcome} {placement : Placement}
  {exam : Exam} {group : ExamGroup}

private theorem leader_keeps_slot (handed : Handed input config outcome)
    (once : (input.committed.map (·.group)).Nodup) (committed : placement ∈ input.committed)
    (listed : group ∈ outcome.groups) (member : placement.group ∈ group.exams)
    (leads : ∀ ancode ∈ group.exams, placement.group ≤ ancode) :
    outcome.plan.slotOf? group.code = some placement.slot := by
  have distinct := handed.accepted.distinct_exams
  have built := handed.built ▸ listed
  have chosen := committedSlot?_of_mem once committed
  rw [← code_of_leader distinct built member leads] at chosen
  have recorded := recorded_of_committed distinct built chosen
  obtain ⟨slot, allowed, placed⟩ := slotOf?_placed handed listed (placeable_of_recorded recorded)
  rw [recorded_allowed distinct built recorded, List.mem_singleton] at allowed
  rw [placed, allowed]

private theorem planned_without (handed : Handed input config outcome) (listed : group ∈ outcome.groups)
    (member : placement.group ∈ group.exams) {ancode : Ancode} (leader : ancode ∈ group.exams)
    (smaller : ancode < placement.group) :
    Timetable.plan { input with committed := without input.committed placement.group } config
      = .ok outcome := by
  obtain ⟨accepted, built, scheduled, allocated, balanced⟩ := handed
  have same : grouped (input.calendar config) input.exams (without input.committed placement.group)
      = grouped (input.calendar config) input.exams input.committed :=
    grouped_without (leads_none accepted.distinct_exams (built ▸ listed) member leader smaller)
  apply Handed.planned
  refine ⟨⟨?_, accepted.settings, accepted.housed, accepted.inRange, ?_⟩, ?_, scheduled, allocated, balanced⟩
  · obtain ⟨slots, duplicates, counted, exams, rooms, staff, committed, pinned⟩ :=
      problems_eq_nil_iff.mp accepted.sound
    refine problems_eq_nil_iff.mpr ⟨slots, duplicates, counted, exams, rooms, staff, ?_, pinned⟩
    rw [committedProblems_eq_nil_iff] at committed ⊢
    intro entry kept
    exact committed entry (List.mem_filter.mp kept).1
  · exact (congrArg Grouping.unschedulable same).trans accepted.schedulable
  · exact built.trans (congrArg Grouping.groups same).symm

/-- The group of a committed exam keeps the slot if no exam of the group is smaller. If one is, the
commitment is not looked at: planning without it comes to the same outcome. -/
theorem commitments_follow_the_leader (planned : Timetable.plan input config = .ok outcome)
    (once : (input.committed.map (·.group)).Nodup) (committed : placement ∈ input.committed)
    (known : exam ∈ input.exams) (here : exam.ancode = placement.group) :
    (∃ group ∈ outcome.groups, placement.group ∈ group.exams) ∧
      ∀ group ∈ outcome.groups, placement.group ∈ group.exams →
        ((∀ ancode ∈ group.exams, placement.group ≤ ancode) →
          outcome.plan.slotOf? group.code = some placement.slot) ∧
        ((∃ ancode ∈ group.exams, ancode < placement.group) →
          Timetable.plan { input with committed := without input.committed placement.group } config
            = .ok outcome) := by
  have stages := handed planned
  constructor
  · rw [stages.built, ← here]
    exact exists_group stages.accepted.distinct_exams known
  · intro group listed member
    constructor
    · exact leader_keeps_slot stages once committed listed member
    · intro led
      obtain ⟨ancode, leader, smaller⟩ := led
      exact planned_without stages listed member leader smaller

end

def joined (committed : List Placement) : PlanningInput where
  period := twoDays.period
  exams := [
    { ancode := 1, title := "", examiner := "prof", duration := 90, category := .regular,
      registrations := [⟨"IF", ["a"]⟩], constraints := { sameSlot := [2] } },
    { ancode := 2, title := "", examiner := "prof", duration := 60, category := .regular,
      registrations := [⟨"IF", ["b"]⟩], constraints := {} }]
  accommodations := []
  rooms := twoDays.rooms
  invigilators := []
  committed
  pinned := []

def joinedGroups (allowedSlots : List Slot) (state : GroupState) : List ExamGroup :=
  [⟨1, [1, 2], 2, 90, allowedSlots, [], state⟩]

def lockedGroups : List ExamGroup := joinedGroups [⟨2, 1⟩] (.locked ⟨2, 1⟩)

def freeGroups : List ExamGroup := joinedGroups [⟨1, 1⟩, ⟨2, 1⟩] .scheduled

def drawnPlan : Plan := ⟨[⟨1, ⟨1, 1⟩⟩], 0, 1, 0, 0⟩

def joinedRooms (slot : Slot) : RoomPlan where
  seatings := [⟨slot, "R2", 1, 90, ["a"], false, false⟩, ⟨slot, "R1", 2, 60, ["b"], false, false⟩]
  shortfalls := []

def joinedStaff (slot : Slot) : StaffingReport where
  invigilations := []
  balances := []
  maxDeviation := 0
  minDeviation := 0
  unassigned := [(slot, some "R2"), (slot, none), (slot, some "R1")]

theorem leader_of_two_commitments :
    ∃ outcome, Timetable.plan (joined [⟨1, ⟨2, 1⟩⟩, ⟨2, ⟨1, 1⟩⟩]) (briefly 5) = .ok outcome ∧
      outcome.plan.slotOf? 1 = some ⟨2, 1⟩ ∧
      Timetable.plan (joined [⟨1, ⟨2, 1⟩⟩]) (briefly 5) = .ok outcome := by
  have prepared : prepare (joined [⟨1, ⟨2, 1⟩⟩, ⟨2, ⟨1, 1⟩⟩]) (briefly 5)
      = .ok lockedGroups := by decide +kernel
  have drawn : ((Search.ofGroups (briefly 5).search (briefly 5).penalties lockedGroups).firstPopulation.run
      (ChaCha.ofSeed (briefly 5).search.seed.toUInt64 (0 : Nat).toUInt64)).isOk = true := by decide +kernel
  have allocated : (Allocator.ofConfig twoDays.rooms (briefly 5)).allocate
      (examsNeedingRooms (.ofPlacements [⟨1, ⟨2, 1⟩⟩]) lockedGroups (joined []).exams) [] []
        = .ok (joinedRooms ⟨2, 1⟩) := by decide +kernel
  have balanced : Staffing.balance [] (briefly 5) (joinedRooms ⟨2, 1⟩).seatings
      (scheduledExams (.ofPlacements [⟨1, ⟨2, 1⟩⟩]) lockedGroups (joined []).exams)
      ((joined []).calendar (briefly 5)) = .ok (joinedStaff ⟨2, 1⟩) := by decide +kernel
  obtain ⟨plan, planned, -⟩ := @plan_forced _ _ _ _ [⟨2, 1⟩] _ _ prepared rfl rfl rfl rfl rfl drawn
    allocated balanced
  have leading := (@commitments_follow_the_leader _ _ _ ⟨1, ⟨2, 1⟩⟩ _ planned (by decide) (by decide)
    List.mem_cons_self rfl).2 _ List.mem_cons_self (by decide)
  have lagging := (@commitments_follow_the_leader _ _ _ ⟨2, ⟨1, 1⟩⟩ _ planned (by decide) (by decide)
    (List.mem_cons_of_mem _ List.mem_cons_self) rfl).2 _ List.mem_cons_self (by decide)
  exact ⟨_, planned, leading.1 (by decide), lagging.2 (by decide)⟩

/-- The exam has been committed, and its group is placed in another slot. -/
theorem lagging_commitment_is_lost :
    ((joined [⟨2, ⟨2, 1⟩⟩]).committed.map (·.group)).Nodup ∧
    (∃ exam ∈ (joined [⟨2, ⟨2, 1⟩⟩]).exams, exam.ancode = 2) ∧
    ∃ outcome, Timetable.plan (joined [⟨2, ⟨2, 1⟩⟩]) (briefly 5) = .ok outcome ∧
      ∃ group ∈ outcome.groups, 2 ∈ group.exams ∧ outcome.plan.slotOf? group.code = some ⟨1, 1⟩ := by
  have prepared : prepare (joined [⟨2, ⟨2, 1⟩⟩]) (briefly 5) = .ok freeGroups := by decide +kernel
  have found : (Search.ofGroups (briefly 5).search (briefly 5).penalties freeGroups).bestPlan
      = .ok drawnPlan := by
    rw [SearchRuns.bestPlan_stopped rfl rfl]
    decide +kernel
  have scheduled := schedule_ok_iff.mpr ⟨found, rfl⟩
  have allocated : (Allocator.ofConfig twoDays.rooms (briefly 5)).allocate
      (examsNeedingRooms drawnPlan freeGroups (joined []).exams) [] [] = .ok (joinedRooms ⟨1, 1⟩) := by
    decide +kernel
  have balanced : Staffing.balance [] (briefly 5) (joinedRooms ⟨1, 1⟩).seatings
      (scheduledExams drawnPlan freeGroups (joined []).exams) ((joined []).calendar (briefly 5))
        = .ok (joinedStaff ⟨1, 1⟩) := by decide +kernel
  obtain ⟨accepted, built⟩ := prepare_ok_iff.mp prepared
  have planned : Timetable.plan (joined [⟨2, ⟨2, 1⟩⟩]) (briefly 5)
      = .ok ⟨freeGroups, drawnPlan, joinedRooms ⟨1, 1⟩, joinedStaff ⟨1, 1⟩⟩ :=
    Handed.planned ⟨accepted, built, scheduled, allocated, balanced⟩
  exact ⟨by decide, ⟨_, List.mem_cons_of_mem _ List.mem_cons_self, rfl⟩, _, planned, _, List.mem_cons_self,
    by decide, rfl⟩

end Timetable.Proofs.Commitments
