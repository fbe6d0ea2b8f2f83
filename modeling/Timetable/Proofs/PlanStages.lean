import Timetable.Outcome
import Timetable.Proofs.ConflictEdges
import Timetable.Proofs.InputChecks
import Timetable.Proofs.ScheduledExams
import Timetable.Proofs.SearchRuns

/-! A plan that has been handed out, stage by stage: the checks in front of the search, the search for
placements, and the rooms and the staff behind it. -/

namespace Timetable.Proofs.PlanStages
open ConflictGraph ConflictEdges Draws GroupMembership InputChecks SearchRuns Returned

section
variable {search : Search} {plan : Plan} {params : SearchParams} {weights : PenaltyWeights}
  {groups : List ExamGroup} {placements : List Placement} {genes : List Slot}

theorem schedule_eq {clashes : List Clash} (best : search.bestPlan = .ok plan)
    (checked : search.graph.clashes (plan.placements.map (·.slot)) = .ok clashes) :
    search.schedule = if clashes = [] then .ok plan else .error (.noValidPlan clashes) := by
  simp only [Search.schedule, best, Except.mapError, bind, Except.bind, checked, List.isEmpty_iff]
  rfl

theorem schedule_ok_iff : search.schedule = .ok plan ↔
    search.bestPlan = .ok plan ∧ search.graph.clashes (plan.placements.map (·.slot)) = .ok [] := by
  constructor
  · intro returned
    obtain ⟨best, found, returned⟩ := bind_ok returned
    obtain ⟨clashes, checked, returned⟩ := bind_ok returned
    split at returned
    next none =>
      cases pure_ok returned
      rw [List.isEmpty_iff.mp none] at checked
      exact ⟨mapError_ok found, mapError_ok checked⟩
    next => cases returned
  · rintro ⟨found, checked⟩
    exact (schedule_eq found checked).trans (if_pos rfl)

private theorem placed_groups {codes : List GroupCode} (length : genes.length = codes.length) :
    (List.zipWith Placement.mk codes genes).map (·.group) = codes := by
  induction codes generalizing genes with
  | nil => simp
  | cons code codes ih =>
    cases genes with
    | nil => cases length
    | cons gene genes => simpa using ih (by simpa using length)

private theorem placed_slots {codes : List GroupCode} (length : genes.length = codes.length) :
    (List.zipWith Placement.mk codes genes).map (·.slot) = genes := by
  induction codes generalizing genes with
  | nil => rw [List.eq_nil_of_length_eq_zero length]; rfl
  | cons code codes ih =>
    cases genes with
    | nil => cases length
    | cons gene genes => simpa using ih (by simpa using length)

structure Planned (groups : List ExamGroup) (placements : List Placement) (genes : List Slot) : Prop where
  eq : placements = List.zipWith Placement.mk ((groups.filter ExamGroup.isPlaceable).map (·.code)) genes
  allowed : List.Forall₂ (fun group gene => group.allowedSlots ≠ [] → gene ∈ group.allowedSlots)
    (groups.filter ExamGroup.isPlaceable) genes
  distinct : (groups.map (·.code)).Nodup

theorem planned_of_chooses {result : RunResult} (chooses : Chooses (.ofGroups params weights groups) plan result)
    (distinct : (groups.map (·.code)).Nodup) : Planned groups plan.placements result.best.genes := by
  have allowed : Allowed (ofGroups groups).domains result.best.genes := chooses.ended.scored.allowed
  rw [ofGroups_domains, Allowed, List.forall₂_map_left_iff] at allowed
  exact ⟨ofGroups_codes groups ▸ chooses.placements, allowed, distinct⟩

theorem exists_genes (returned : (Search.ofGroups params weights groups).schedule = .ok plan)
    (distinct : (groups.map (·.code)).Nodup) : ∃ genes, Planned groups plan.placements genes := by
  have best := (schedule_ok_iff.mp returned).1
  rcases @bestPlan_chooses (.ofGroups params weights groups) (closed_ofGroups groups) with
    ⟨found, same, result, chooses⟩ | ⟨failed, -⟩
  · obtain rfl := Except.ok.inj (same.symm.trans best)
    exact ⟨result.best.genes, planned_of_chooses chooses distinct⟩
  · rw [failed] at best
    cases best

namespace Planned
variable (planned : Planned groups placements genes)
include planned

theorem length_eq : genes.length = (groups.filter ExamGroup.isPlaceable).length :=
  planned.allowed.length_eq.symm

/-- Each group is placed with its gene. -/
theorem pairs : List.Forall₂ (fun group gene => ⟨group.code, gene⟩ ∈ placements)
    (groups.filter ExamGroup.isPlaceable) genes := by
  rw [planned.eq, List.zipWith_map_left, ← List.map_uncurry_zip_eq_zipWith, List.forall₂_iff_zip]
  exact ⟨planned.length_eq.symm, fun paired => List.mem_map_of_mem paired⟩

theorem groups_eq : placements.map (·.group) = (groups.filter ExamGroup.isPlaceable).map (·.code) := by
  rw [planned.eq]
  exact placed_groups (by rw [List.length_map, planned.length_eq])

theorem slots_eq : placements.map (·.slot) = genes := by
  rw [planned.eq]
  exact placed_slots (by rw [List.length_map, planned.length_eq])

theorem groups_nodup : (placements.map (·.group)).Nodup := by
  rw [planned.groups_eq]
  exact planned.distinct.sublist (List.filter_sublist.map _)

theorem exists_placed {placement : Placement} (member : placement ∈ placements) :
    ∃ group ∈ groups, group.code = placement.group ∧ group.isPlaceable = true ∧
      (group.allowedSlots ≠ [] → placement.slot ∈ group.allowedSlots) := by
  rw [planned.eq, List.zipWith_map_left, ← List.map_uncurry_zip_eq_zipWith] at member
  obtain ⟨⟨group, gene⟩, paired, rfl⟩ := List.mem_map.mp member
  obtain ⟨listed, placeable⟩ := List.mem_filter.mp (List.of_mem_zip paired).1
  exact ⟨group, listed, rfl, placeable, (List.forall₂_iff_zip.mp planned.allowed).2 paired⟩

end Planned

theorem allowed_singletons {chosen : List Slot} (allowed : Allowed (genes.map ([·])) chosen) :
    chosen = genes := by
  rw [Allowed, List.forall₂_map_left_iff] at allowed
  induction allowed with
  | nil => rfl
  | cons first _ ih => rw [ih, List.mem_singleton.mp (first (List.cons_ne_nil _ _))]

/-- Where each group has one slot to go to, a search without generations only needs its first draws. -/
theorem schedule_forced (domains : (ofGroups groups).domains = genes.map ([·]))
    (apart : (ofGroups groups).clashes genes = .ok []) (stopped : params.noImprovement = 0)
    (single : params.runs = 1)
    (drawn : ((Search.ofGroups params weights groups).firstPopulation.run
      (ChaCha.ofSeed params.seed.toUInt64 (0 : Nat).toUInt64)).isOk = true) :
    ∃ plan, (Search.ofGroups params weights groups).schedule = .ok plan ∧
      plan.placements = List.zipWith Placement.mk (ofGroups groups).codes genes := by
  have closed : Closed (Search.ofGroups params weights groups).graph := closed_ofGroups groups
  have count : (Search.ofGroups params weights groups).runCount = 1 := by
    change max params.runs 1 = 1
    omega
  obtain ⟨plan, found⟩ := exists_bestPlan closed stopped count drawn
  rcases bestPlan_settles closed with ⟨other, same, chosen, allowed, placed⟩ | ⟨failed, -⟩
  · obtain rfl := Except.ok.inj (same.symm.trans found)
    change Allowed (ofGroups groups).domains chosen at allowed
    change other.placements = List.zipWith Placement.mk (ofGroups groups).codes chosen at placed
    have length : chosen.length = (ofGroups groups).codes.length := by
      rw [← allowed.length_eq, ConflictGraph.codes, ConflictGraph.domains, List.length_map, List.length_map]
    rw [domains] at allowed
    obtain rfl := allowed_singletons allowed
    refine ⟨other, schedule_ok_iff.mpr ⟨found, ?_⟩, placed⟩
    rw [placed, placed_slots length]
    exact apart
  · rw [failed] at found
    cases found

end

section
variable {input : PlanningInput} {config : Config} {groups : List ExamGroup} {plan : Plan}
  {outcome : Outcome}

theorem furnish_ok_iff : furnish input config groups plan = .ok outcome ↔
    outcome.groups = groups ∧ outcome.plan = plan ∧
      (Allocator.ofConfig input.rooms config).allocate (examsNeedingRooms plan groups input.exams)
        input.accommodations input.pinned = .ok outcome.rooms ∧
      Staffing.balance input.invigilators config outcome.rooms.seatings
        (scheduledExams plan groups input.exams) (input.calendar config) = .ok outcome.staffing := by
  constructor
  · intro furnished
    obtain ⟨rooms, allocated, furnished⟩ := bind_ok furnished
    obtain ⟨staffing, balanced, furnished⟩ := bind_ok furnished
    obtain rfl := pure_ok furnished
    exact ⟨rfl, rfl, allocated, balanced⟩
  · rintro ⟨rfl, rfl, allocated, balanced⟩
    exact (ok_bind allocated).trans ((ok_bind balanced).trans rfl)

structure Handed (input : PlanningInput) (config : Config) (outcome : Outcome) : Prop where
  accepted : Accepted input config
  built : outcome.groups = (grouped (input.calendar config) input.exams input.committed).groups
  scheduled :
    (Search.ofGroups config.search config.penalties outcome.groups).schedule = .ok outcome.plan
  allocated : (Allocator.ofConfig input.rooms config).allocate
    (examsNeedingRooms outcome.plan outcome.groups input.exams) input.accommodations input.pinned
      = .ok outcome.rooms
  balanced : Staffing.balance input.invigilators config outcome.rooms.seatings
    (scheduledExams outcome.plan outcome.groups input.exams) (input.calendar config)
      = .ok outcome.staffing

theorem handed (planned : Timetable.plan input config = .ok outcome) : Handed input config outcome := by
  obtain ⟨groups, prepared, planned⟩ := bind_ok planned
  obtain ⟨plan, scheduled, planned⟩ := bind_ok planned
  obtain ⟨rfl, rfl, allocated, balanced⟩ := furnish_ok_iff.mp (mapError_ok planned)
  obtain ⟨accepted, built⟩ := prepare_ok_iff.mp prepared
  exact ⟨accepted, built, scheduled, allocated, balanced⟩

theorem Handed.planned (handed : Handed input config outcome) :
    Timetable.plan input config = .ok outcome := by
  obtain ⟨accepted, built, scheduled, allocated, balanced⟩ := handed
  have furnished := furnish_ok_iff.mpr ⟨rfl, rfl, allocated, balanced⟩
  refine (ok_bind (prepare_ok_iff.mpr ⟨accepted, built⟩)).trans ((ok_bind scheduled).trans ?_)
  rw [furnished]
  rfl

/-- If its groups have nowhere else to go, a plan is handed out unless its rooms or its staff fault. -/
theorem plan_forced {placements : List Placement} {genes : List Slot} {rooms : RoomPlan}
    {staffing : StaffingReport} (prepared : prepare input config = .ok groups)
    (domains : (ofGroups groups).domains = genes.map ([·]))
    (placed : List.zipWith Placement.mk (ofGroups groups).codes genes = placements)
    (apart : (ofGroups groups).clashes genes = .ok []) (stopped : config.search.noImprovement = 0)
    (single : config.search.runs = 1)
    (drawn : ((Search.ofGroups config.search config.penalties groups).firstPopulation.run
      (ChaCha.ofSeed config.search.seed.toUInt64 (0 : Nat).toUInt64)).isOk = true)
    (allocated : (Allocator.ofConfig input.rooms config).allocate
      (examsNeedingRooms (.ofPlacements placements) groups input.exams) input.accommodations input.pinned
        = .ok rooms)
    (balanced : Staffing.balance input.invigilators config rooms.seatings
      (scheduledExams (.ofPlacements placements) groups input.exams) (input.calendar config)
        = .ok staffing) :
    ∃ plan, Timetable.plan input config = .ok ⟨groups, plan, rooms, staffing⟩ ∧
      plan.placements = placements := by
  obtain ⟨plan, scheduled, same⟩ := schedule_forced domains apart stopped single drawn
  have same : plan.placements = (Plan.ofPlacements placements).placements := same.trans placed
  rw [← ScheduledExams.examsNeedingRooms_congr same] at allocated
  rw [← ScheduledExams.scheduledExams_congr same] at balanced
  obtain ⟨accepted, built⟩ := prepare_ok_iff.mp prepared
  exact ⟨plan, Handed.planned ⟨accepted, built, scheduled, allocated, balanced⟩, same⟩

def twoDays : PlanningInput where
  period := ⟨[⟨⟨1, 1⟩, ⟨⟨2025, 7, 1⟩, ⟨8, 30, 0, 0⟩⟩⟩, ⟨⟨2, 1⟩, ⟨⟨2025, 7, 2⟩, ⟨8, 30, 0, 0⟩⟩⟩], []⟩
  exams := [
    { ancode := 1, title := "", examiner := "prof", duration := 90, category := .regular,
      registrations := [⟨"IF", ["a", "b"]⟩], constraints := {} },
    { ancode := 2, title := "", examiner := "prof", duration := 60, category := .regular,
      registrations := [⟨"IF", ["c"]⟩, ⟨"DC", ["b"]⟩], constraints := {} }]
  accommodations := [⟨"b", 25, false⟩]
  rooms := [⟨"R1", 1, false, false, false, false⟩, ⟨"R2", 2, false, false, false, false⟩]
  invigilators := []
  committed := [⟨1, ⟨1, 1⟩⟩, ⟨2, ⟨2, 1⟩⟩]
  pinned := []

def twoGroups : List ExamGroup :=
  [⟨1, [1], 2, 90, [⟨1, 1⟩], [⟨2, 1⟩], .locked ⟨1, 1⟩⟩, ⟨2, [2], 2, 60, [⟨2, 1⟩], [⟨1, 1⟩], .locked ⟨2, 1⟩⟩]

def twoRooms : RoomPlan where
  seatings := [⟨⟨1, 1⟩, "R2", 1, 90, ["a"], false, false⟩, ⟨⟨1, 1⟩, "R2", 1, 113, ["b"], true, false⟩,
    ⟨⟨2, 1⟩, "R2", 2, 60, ["c"], false, false⟩, ⟨⟨2, 1⟩, "R2", 2, 75, ["b"], true, false⟩]
  shortfalls := []

def briefly (seed : Nat) : Config where
  search := { population := 2, runs := 1, noImprovement := 0, targetMutation := 0,
              selection := .roulette, seed }

theorem twoDays_planned : ∃ plan staffing,
    Timetable.plan twoDays (briefly 0) = .ok ⟨twoGroups, plan, twoRooms, staffing⟩ ∧
      plan.placements = twoDays.committed := by
  obtain ⟨staffing, balanced⟩ : ∃ staffing, Staffing.balance [] (briefly 0) twoRooms.seatings
      (scheduledExams (.ofPlacements twoDays.committed) twoGroups twoDays.exams)
      (twoDays.calendar (briefly 0)) = .ok staffing := ⟨_, rfl⟩
  have prepared : prepare twoDays (briefly 0) = .ok twoGroups := by decide +kernel
  have drawn : ((Search.ofGroups (briefly 0).search (briefly 0).penalties twoGroups).firstPopulation.run
      (ChaCha.ofSeed (briefly 0).search.seed.toUInt64 (0 : Nat).toUInt64)).isOk = true := by decide +kernel
  obtain ⟨plan, planned, placed⟩ := @plan_forced _ _ _ _ [⟨1, 1⟩, ⟨2, 1⟩] _ _ prepared rfl rfl rfl rfl rfl drawn
    rfl balanced
  exact ⟨plan, staffing, planned, placed⟩

end

end Timetable.Proofs.PlanStages
