import Timetable.Proofs.GroupMembership
import Timetable.Search.ConflictGraph

/-! Groups that are built again once their slots are committed. Each keeps its exams and conflicts, and
is left with the one slot it was placed in. -/

namespace Timetable.Proofs.CommittedGroups
open Grouping GroupMembership ConflictGraph

/-- A group with its slot committed, if it has been placed. -/
def settle (placements : List Placement) (group : ExamGroup) : ExamGroup :=
  match committedSlot? placements group.code with
  | none => group
  | some slot =>
    { group with
      allowedSlots := [slot]
      state := if group.isExternal then .external (some slot) else .locked slot }

variable {calendar : Calendar} {exams : List Exam} {committed placements : List Placement}
  {groups : List ExamGroup} {group : ExamGroup} {members : List Exam}

@[simp] theorem settle_code (placements : List Placement) (group : ExamGroup) :
    (settle placements group).code = group.code := by
  unfold settle
  split <;> rfl

@[simp] theorem settle_exams (placements : List Placement) (group : ExamGroup) :
    (settle placements group).exams = group.exams := by
  unfold settle
  split <;> rfl

@[simp] theorem settle_conflicts (placements : List Placement) (group : ExamGroup) :
    (settle placements group).conflicts = group.conflicts := by
  unfold settle
  split <;> rfl

@[simp] theorem settle_isExternal (placements : List Placement) (group : ExamGroup) :
    (settle placements group).isExternal = group.isExternal := by
  unfold settle
  split
  · rfl
  · cases external : group.isExternal <;> simp [ExamGroup.isExternal, GroupState.isExternal]

theorem settle_allowedSlots {slot : Slot} (placed : committedSlot? placements group.code = some slot) :
    (settle placements group).allowedSlots = [slot] := by
  rw [settle, placed]

def Places (placements : List Placement) (group : ExamGroup) : Prop :=
  group.isPlaceable = (committedSlot? placements group.code).isSome

theorem settle_isPlaceable (placed : Places placements group) :
    (settle placements group).isPlaceable = group.isPlaceable := by
  unfold Places at placed
  unfold settle
  split
  · rfl
  · rename_i slot chosen
    rw [placed, chosen]
    cases external : group.isExternal <;> simp [ExamGroup.isPlaceable, GroupState.isPlaceable]

private theorem settle_conflicted (conflicts : List GroupConflict) :
    settle placements { group with conflicts } = { settle placements group with conflicts } := by
  unfold settle
  cases committedSlot? placements group.code <;> rfl

theorem stateOf_isExternal (members : List Exam) (slot : Option Slot) (common : List Slot) :
    (stateOf members slot common).isExternal = members.all (·.constraints.plannedElsewhere) := by
  unfold stateOf
  split
  · rename_i all
    rw [all]
    split <;> rfl
  · rename_i some
    rw [Bool.not_eq_true] at some
    rw [some]
    split <;> rfl

theorem stateOf_committed (members : List Exam) (slot : Slot) (common : List Slot) :
    stateOf members (some slot) common =
      if members.all (·.constraints.plannedElsewhere) then .external (some slot) else .locked slot := by
  unfold stateOf
  split <;> rfl

private theorem committed_none {slot : Option Slot} {common : List Slot}
    (left : (stateOf members slot common).isPlaceable = false) : slot = none := by
  cases slot with
  | none => rfl
  | some slot =>
    rw [stateOf_committed] at left
    split at left <;> cases left

/-- Only the state of a group and the slots it may take depend on the placements. -/
theorem countedGroup_settle
    (placed : Places placements (countedGroup calendar committed members)) :
    countedGroup calendar placements members
      = settle placements (countedGroup calendar committed members) := by
  cases slot : committedSlot? placements (countedGroup calendar committed members).code with
  | none =>
    rw [Places, slot] at placed
    have free := committed_none placed
    rw [settle, slot]
    simp only [countedGroup, bareGroup] at free slot ⊢
    rw [free, slot]
  | some slot =>
    have external : (countedGroup calendar committed members).isExternal
        = members.all (·.constraints.plannedElsewhere) := stateOf_isExternal ..
    simp only [settle, slot, external]
    simp only [countedGroup, bareGroup] at slot ⊢
    rw [slot, stateOf_committed]
    cases members.all (·.constraints.plannedElsewhere) <;> rfl

private theorem found_settle
    (placed : ∀ group ∈ found calendar exams committed, Places placements group) :
    found calendar exams placements = (found calendar exams committed).map (settle placements) := by
  rw [found, found, List.map_map]
  apply List.map_congr_left
  intro members listed
  exact countedGroup_settle (placed _ (List.mem_map_of_mem listed))

private theorem codeOf?_settle (groups : List ExamGroup) (ancode : Ancode) :
    codeOf? (groups.map (settle placements)) ancode = codeOf? groups ancode := by
  rw [codeOf?, codeOf?, List.filter_map, List.getLast?_map, Option.map_map]
  simp [Function.comp_def]

private theorem found_placed (distinct : (exams.map (·.ancode)).Nodup)
    (placed : ∀ group ∈ (grouped calendar exams committed).groups, Places placements group) :
    ∀ group ∈ found calendar exams committed, Places placements group := by
  intro group member
  exact placed { group with conflicts := conflictsOf (weights calendar exams committed) group.code }
    ((mem_grouped distinct).mpr ⟨group, member, rfl⟩)

/-- Committing the placements of a plan settles its groups and changes nothing else about them. -/
theorem grouped_settle (distinct : (exams.map (·.ancode)).Nodup)
    (placed : ∀ group ∈ (grouped calendar exams committed).groups, Places placements group) :
    (grouped calendar exams placements).groups
      = (grouped calendar exams committed).groups.map (settle placements) := by
  have each := found_placed distinct placed
  have linked : links calendar exams placements = links calendar exams committed := by
    rw [links, links, found_settle each]
    simp only [groupLinks, codeOf?_settle]
  have sorted : stableSort (fun a b => decide (a.code ≤ b.code))
        ((found calendar exams committed).map (settle placements))
      = (stableSort (fun a b => decide (a.code ≤ b.code)) (found calendar exams committed)).map
          (settle placements) := Ordering.stableSort_map (by simp) _
  rw [grouped_groups_eq distinct, grouped_groups_eq distinct, weights, weights, found_settle each, linked, sorted,
    List.map_map, List.map_map]
  apply List.map_congr_left
  intro group _
  simp only [Function.comp_apply, settle_conflicted, settle_code]

/-- A group that has been placed has a slot, and one that need not be placed needs none. -/
theorem grouped_schedulable (distinct : (exams.map (·.ancode)).Nodup)
    (placed : ∀ group ∈ (grouped calendar exams committed).groups, Places placements group) :
    (grouped calendar exams placements).unschedulable = [] := by
  have each := found_placed distinct placed
  change (found calendar exams placements).filterMap unschedulable? = []
  rw [found_settle each, List.filterMap_eq_nil_iff]
  intro settled member
  obtain ⟨group, listed, rfl⟩ := List.mem_map.mp member
  have place := each group listed
  have settled : (settle placements group).state ≠ .scheduled := by
    rw [Places] at place
    unfold settle
    split
    · rename_i none
      intro free
      rw [none, ExamGroup.isPlaceable, free] at place
      cases place
    · split <;> simp
  exact if_neg fun both => settled both.1

/-- Without a commitment only an external group has a slot recorded, where it can be but in one. -/
theorem recorded_iff {chosen : Option Slot} {common : List Slot} {slot : Slot} :
    (stateOf members chosen common).recorded? = some slot ↔ chosen = some slot ∨
      chosen = none ∧ members.all (·.constraints.plannedElsewhere) = true ∧ common = [slot] := by
  cases chosen with
  | some other =>
    rw [stateOf_committed]
    split <;> simp [GroupState.recorded?]
  | none =>
    unfold stateOf
    split
    · rename_i elsewhere
      split
      · rename_i impossible
        cases impossible
      · simp [GroupState.recorded?, elsewhere]
      · rename_i several
        simp only [GroupState.recorded?, elsewhere, reduceCtorEq, false_or, true_and, false_iff]
        exact several slot
    · rename_i here
      simp [GroupState.recorded?, here]

private theorem commonSlots_known {slot : Slot} (allowed : slot ∈ commonSlots calendar members) :
    slot ∈ calendar.period.slots.map (·.slot) := by
  cases members with
  | nil => cases allowed
  | cons first others =>
    obtain ⟨timed, listed, rfl⟩ := List.mem_map.mp (List.mem_filter.mp allowed).1
    have member := (List.mem_filter.mp listed).1
    rw [Calendar.slots, Ordering.mem_stableSort] at member
    exact List.mem_map_of_mem member

private theorem committedSlot?_mem {code : GroupCode} {slot : Slot}
    (found : committedSlot? committed code = some slot) : slot ∈ committed.map (·.slot) := by
  obtain ⟨placement, last, rfl⟩ := Option.map_eq_some_iff.mp found
  exact List.mem_map_of_mem (List.mem_filter.mp (List.mem_of_getLast? last)).1

theorem allowedSlots_known (known : ∀ placement ∈ committed, placement.slot ∈ calendar.period.slots.map (·.slot))
    (distinct : (exams.map (·.ancode)).Nodup) (member : group ∈ (grouped calendar exams committed).groups)
    {slot : Slot} (allowed : slot ∈ group.allowedSlots) : slot ∈ calendar.period.slots.map (·.slot) := by
  obtain ⟨members, -, -, -, -, slots⟩ := group_members distinct member
  rw [slots] at allowed
  simp only [countedGroup, bareGroup] at allowed
  split at allowed
  · rename_i chosen recorded
    rw [List.mem_singleton] at allowed
    subst allowed
    rcases recorded_iff.mp recorded with found | ⟨-, -, single⟩
    · obtain ⟨placement, present, same⟩ := List.mem_map.mp (committedSlot?_mem found)
      exact same ▸ known placement present
    · exact commonSlots_known (single ▸ List.mem_singleton_self _)
  · exact commonSlots_known allowed

/-- A group that has to be placed has a slot to go to, unless that is reported. -/
theorem allowedSlots_ne_nil (schedulable : (grouped calendar exams committed).unschedulable = [])
    (distinct : (exams.map (·.ancode)).Nodup) (member : group ∈ (grouped calendar exams committed).groups)
    (placeable : group.isPlaceable = true) : group.allowedSlots ≠ [] := by
  obtain ⟨bare, listed, rfl⟩ := (mem_grouped distinct).mp member
  change bare.isPlaceable = true at placeable
  change bare.allowedSlots ≠ []
  intro empty
  have reported := List.filterMap_eq_nil_iff.mp schedulable bare listed
  obtain ⟨members, -, rfl⟩ := List.mem_map.mp listed
  have free : (countedGroup calendar committed members).state = .scheduled := by
    simp only [countedGroup, bareGroup] at empty
    split at empty
    · cases empty
    · rename_i unrecorded
      change (stateOf members _ _).isPlaceable = true at placeable
      change stateOf members _ _ = .scheduled
      revert unrecorded placeable
      cases stateOf members (committedSlot? committed _) (commonSlots calendar members) with
      | scheduled => simp
      | locked slot => simp [GroupState.recorded?]
      | external slot => cases slot <;> simp [GroupState.recorded?, GroupState.isPlaceable]
  rw [unschedulable?, if_pos ⟨free, empty⟩] at reported
  cases reported

end Timetable.Proofs.CommittedGroups
