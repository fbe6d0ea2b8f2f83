import Timetable.Proofs.CommittedGroups
import Timetable.Proofs.PlanStages

/-! The slots that groups are placed in. A plan holds every group that has to be placed once and in
order. Each is in a slot of the calendar that all its exams admit, or in the one recorded for it. -/

namespace Timetable.Proofs.PlacedGroups
open Grouping GroupMembership CommittedGroups InputChecks PlanStages

section
variable {calendar : Calendar} {exams : List Exam} {committed : List Placement} {exam : Exam}
  {timed : TimedSlot} {slot : Slot} {group : ExamGroup}

/-- What an exam asks of the slot it is placed in. -/
structure Fits (calendar : Calendar) (exam : Exam) (timed : TimedSlot) : Prop where
  go : exam.category = .go → timed.slot ∈ calendar.period.goSlots
  regular : exam.category = .regular → calendar.goExclusive = true → timed.slot ∉ calendar.period.goSlots
  excluded : timed.date ∉ exam.constraints.excludedDays
  possible : exam.constraints.possibleDays ≠ [] → timed.date ∈ exam.constraints.possibleDays
  day : ∀ day, exam.constraints.fixedDay = some day → timed.date = day
  moment : ∀ moment, exam.constraints.fixedTime = some moment → timed.startsAt = moment

private theorem admitsCategory_iff {category : ExamCategory} : calendar.admitsCategory category slot = true ↔
    (category = .go → slot ∈ calendar.period.goSlots) ∧
      (category = .regular → calendar.goExclusive = true → slot ∉ calendar.period.goSlots) := by
  cases category with
  | go => simp [Calendar.admitsCategory, Calendar.isGo]
  | regular => simp [Calendar.admitsCategory, Calendar.isGo, imp_iff_not_or]

theorem admits_iff_fits : calendar.admits exam timed = true ↔ Fits calendar exam timed := by
  simp only [Calendar.admits, Bool.and_eq_true, Bool.or_eq_true, Bool.not_eq_true', List.contains_eq_mem,
    decide_eq_true_eq, decide_eq_false_iff_not, List.isEmpty_iff, admitsCategory_iff]
  constructor
  · rintro ⟨⟨⟨⟨⟨go, regular⟩, excluded⟩, possible⟩, day⟩, moment⟩
    refine ⟨go, regular, excluded, possible.resolve_left, ?_, ?_⟩
    · intro fixed here
      rw [here] at day
      exact of_decide_eq_true day
    · intro fixed here
      rw [here] at moment
      exact of_decide_eq_true moment
  · intro fits
    refine ⟨⟨⟨⟨⟨fits.go, fits.regular⟩, fits.excluded⟩, Decidable.or_iff_not_imp_left.mpr fits.possible⟩, ?_⟩, ?_⟩
    · cases fixed : exam.constraints.fixedDay with
      | none => rfl
      | some day => exact decide_eq_true (fits.day day fixed)
    · cases fixed : exam.constraints.fixedTime with
      | none => rfl
      | some moment => exact decide_eq_true (fits.moment moment fixed)

theorem mem_allowedSlots : slot ∈ calendar.allowedSlots exam ↔
    ∃ timed ∈ calendar.period.slots, timed.slot = slot ∧ calendar.admits exam timed = true := by
  simp only [Calendar.allowedSlots, Calendar.slots, List.mem_map, List.mem_filter, Ordering.mem_stableSort]
  constructor
  · intro found
    obtain ⟨timed, ⟨listed, admitted⟩, same⟩ := found
    exact ⟨timed, listed, same, admitted⟩
  · intro found
    obtain ⟨timed, listed, same, admitted⟩ := found
    exact ⟨timed, ⟨listed, admitted⟩, same⟩

/-- The slots of a group that the search places are free for each of its exams. -/
theorem scheduled_fits (distinct : (exams.map (·.ancode)).Nodup)
    (listed : group ∈ (grouped calendar exams committed).groups) (free : group.state = .scheduled)
    (allowed : slot ∈ group.allowedSlots) (present : exam ∈ exams) (within : exam.ancode ∈ group.exams) :
    ∃ timed ∈ calendar.period.slots, timed.slot = slot ∧ Fits calendar exam timed := by
  obtain ⟨members, isList, -, held, state, slots⟩ := group_members distinct listed
  rw [held] at within
  have inside := (ancode_mem_iff distinct isList present).mp within
  have common : slot ∈ commonSlots calendar members := by
    rw [state] at free
    rw [slots] at allowed
    simp only [countedGroup, bareGroup] at free allowed
    rwa [free] at allowed
  have own := (mem_commonSlots (members_ne_nil isList)).mp common exam inside
  obtain ⟨timed, known, here, admitted⟩ := mem_allowedSlots.mp own
  exact ⟨timed, known, here, admits_iff_fits.mp admitted⟩

theorem recorded_allowed (distinct : (exams.map (·.ancode)).Nodup)
    (listed : group ∈ (grouped calendar exams committed).groups)
    (recorded : group.state.recorded? = some slot) : group.allowedSlots = [slot] := by
  obtain ⟨members, -, -, -, state, slots⟩ := group_members distinct listed
  rw [state] at recorded
  rw [slots]
  simp only [countedGroup, bareGroup] at recorded ⊢
  rw [recorded]

end

section
variable {input : PlanningInput} {config : Config} {outcome : Outcome} {placement : Placement}

section
variable (handed : Handed input config outcome)
include handed

theorem codes_nodup : (outcome.groups.map (·.code)).Nodup := by
  rw [handed.built]
  exact grouped_codes_nodup handed.accepted.distinct_exams

private theorem exists_taken (member : placement ∈ outcome.plan.placements) :
    ∃ group ∈ outcome.groups, group.code = placement.group ∧ placement.slot ∈ group.allowedSlots := by
  obtain ⟨genes, planned⟩ := exists_genes handed.scheduled (codes_nodup handed)
  obtain ⟨group, listed, code, placeable, allowed⟩ := planned.exists_placed member
  refine ⟨group, listed, code, allowed ?_⟩
  rw [handed.built] at listed
  exact allowedSlots_ne_nil handed.accepted.schedulable handed.accepted.distinct_exams listed placeable

theorem placed_known : ∀ placement ∈ outcome.plan.placements,
    placement.slot ∈ input.period.slots.map (·.slot) := by
  intro placement member
  have known := committedProblems_eq_nil_iff.mp
    (problems_eq_nil_iff.mp handed.accepted.sound).2.2.2.2.2.2.1
  obtain ⟨group, listed, -, allowed⟩ := exists_taken handed member
  rw [handed.built] at listed
  exact allowedSlots_known known handed.accepted.distinct_exams listed allowed

theorem slotOf?_placed {group : ExamGroup} (listed : group ∈ outcome.groups)
    (placeable : group.isPlaceable = true) :
    ∃ slot ∈ group.allowedSlots, outcome.plan.slotOf? group.code = some slot := by
  have codes := codes_nodup handed
  obtain ⟨genes, planned⟩ := exists_genes handed.scheduled codes
  have named : group.code ∈ outcome.plan.placements.map (·.group) := by
    rw [planned.groups_eq]
    exact List.mem_map_of_mem (List.mem_filter.mpr ⟨listed, placeable⟩)
  obtain ⟨placement, member, same⟩ := List.mem_map.mp named
  obtain ⟨other, present, code, allowed⟩ := exists_taken handed member
  rw [Lookups.eq_of_key codes present listed (code.trans same)] at allowed
  refine ⟨placement.slot, allowed, ?_⟩
  rw [← same]
  exact (ScheduledExams.slotOf?_iff planned.groups_nodup).mpr member

end

/-- A plan places the groups that have to be placed, in the order of their codes, and each in a slot
of the calendar that it may take. Every exam of a group that the search has placed fits into its slot;
a group with a recorded slot is in that slot. -/
theorem groups_are_placed_where_they_may (planned : Timetable.plan input config = .ok outcome) :
    outcome.plan.placements.map (·.group) = (outcome.groups.filter ExamGroup.isPlaceable).map (·.code) ∧
    (outcome.plan.placements.map (·.group)).Pairwise (· < ·) ∧
    ∀ placement ∈ outcome.plan.placements, ∃ group ∈ outcome.groups, group.code = placement.group ∧
      placement.slot ∈ group.allowedSlots ∧
      (∃ timed ∈ input.period.slots, timed.slot = placement.slot ∧
        (group.state = .scheduled → ∀ exam ∈ input.exams, exam.ancode ∈ group.exams →
          Fits (input.calendar config) exam timed)) ∧
      ∀ slot, group.state = .locked slot ∨ group.state = .external (some slot) →
        placement.slot = slot := by
  have stages := handed planned
  have distinct := stages.accepted.distinct_exams
  obtain ⟨genes, placed⟩ := exists_genes stages.scheduled (codes_nodup stages)
  refine ⟨placed.groups_eq, ?_, ?_⟩
  · rw [placed.groups_eq, stages.built]
    exact (grouped_codes_ascending distinct).sublist (List.filter_sublist.map _)
  · intro placement member
    obtain ⟨group, listed, code, allowed⟩ := exists_taken stages member
    obtain ⟨timed, known, here⟩ := List.mem_map.mp (placed_known stages placement member)
    refine ⟨group, listed, code, allowed, ⟨timed, known, here, ?_⟩, ?_⟩
    · intro free exam present within
      rw [stages.built] at listed
      obtain ⟨other, also, there, fits⟩ := scheduled_fits distinct listed free allowed present within
      have once := (duplicateProblems_eq_nil_iff.mp
        (problems_eq_nil_iff.mp stages.accepted.sound).2.1).1
      rwa [Lookups.eq_of_key once known also (here.trans there.symm)]
    · intro slot recorded
      have state : group.state.recorded? = some slot := by
        cases recorded with
        | inl locked => rw [locked]; rfl
        | inr external => rw [external]; rfl
      rw [stages.built] at listed
      rw [recorded_allowed distinct listed state] at allowed
      exact List.mem_singleton.mp allowed

def fixedDay : PlanningInput := { twoDays with
  exams := twoDays.exams.map fun exam =>
    if exam.ancode = 1 then { exam with constraints := { fixedDay := some ⟨2025, 7, 1⟩ } } else exam
  committed := [⟨2, ⟨2, 1⟩⟩] }

def fixedGroups : List ExamGroup :=
  [⟨1, [1], 2, 90, [⟨1, 1⟩], [⟨2, 1⟩], .scheduled⟩, ⟨2, [2], 2, 60, [⟨2, 1⟩], [⟨1, 1⟩], .locked ⟨2, 1⟩⟩]

theorem fixed_day_is_kept : ∃ outcome, Timetable.plan fixedDay (briefly 0) = .ok outcome ∧
    outcome.groups = fixedGroups ∧ outcome.plan.placements = twoDays.committed ∧
    (outcome.plan.placements.map (·.group)).Pairwise (· < ·) ∧
    ∀ placement ∈ outcome.plan.placements, ∃ group ∈ outcome.groups, group.code = placement.group ∧
      placement.slot ∈ group.allowedSlots := by
  have prepared : prepare fixedDay (briefly 0) = .ok fixedGroups := by decide +kernel
  have drawn : ((Search.ofGroups (briefly 0).search (briefly 0).penalties fixedGroups).firstPopulation.run
      (ChaCha.ofSeed (briefly 0).search.seed.toUInt64 (0 : Nat).toUInt64)).isOk = true := by decide +kernel
  have allocated : (Allocator.ofConfig fixedDay.rooms (briefly 0)).allocate
      (examsNeedingRooms (.ofPlacements twoDays.committed) fixedGroups fixedDay.exams)
      fixedDay.accommodations fixedDay.pinned = .ok twoRooms := by decide +kernel
  have balanced : Staffing.balance [] (briefly 0) twoRooms.seatings
      (scheduledExams (.ofPlacements twoDays.committed) fixedGroups fixedDay.exams)
      (fixedDay.calendar (briefly 0)) = .ok ⟨[], [], 0, 0,
        [(⟨1, 1⟩, some "R2"), (⟨1, 1⟩, none), (⟨2, 1⟩, some "R2"), (⟨2, 1⟩, none)]⟩ := by decide +kernel
  obtain ⟨plan, planned, placed⟩ := @plan_forced _ _ _ _ [⟨1, 1⟩, ⟨2, 1⟩] _ _ prepared rfl rfl rfl rfl rfl drawn
    allocated balanced
  obtain ⟨-, ascending, all⟩ := groups_are_placed_where_they_may planned
  refine ⟨_, planned, rfl, placed, ascending, ?_⟩
  intro placement member
  obtain ⟨group, listed, code, allowed, -⟩ := all placement member
  exact ⟨group, listed, code, allowed⟩

end

end Timetable.Proofs.PlacedGroups
