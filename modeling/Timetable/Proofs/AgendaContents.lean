import Timetable.Proofs.CommittedGroups
import Timetable.Proofs.PlanStages
import Mathlib.Data.List.Perm.Basic

/-! Nothing gets lost between a plan and the rooms. A plan that places every group that has to be placed puts
each of their exams into the agenda once, and rooms are allocated for every exam that needs one: a group of
such an exam is planned here and has to be placed. -/

namespace Timetable.Proofs.AgendaContents
open Grouping GroupMembership ScheduledExams

private theorem values_ofEntries {α : Type} (entries : List (Slot × α)) :
    (Agenda.ofEntries entries).values.Perm (entries.map (·.2)) := by
  rw [Agenda.ofEntries, Agenda.values, List.flatMap_map, ← List.map_flatMap]
  apply List.Perm.map
  apply Lookups.flatMap_filter_perm (Chronology.slotsOf_nodup _)
  intro entry member
  exact Chronology.mem_slotsOf.mpr (List.mem_map_of_mem member)

private theorem scheduledExams_values (plan : Plan) (groups : List ExamGroup) (exams : List Exam) :
    (scheduledExams plan groups exams).values.Perm ((groups.flatMap (entriesOf plan exams)).map (·.2)) := by
  refine List.Perm.trans ?_ (values_ofEntries _)
  rw [scheduledExams_eq, Agenda.values, Agenda.values, List.flatMap_map]
  exact List.Perm.flatMap_left _ fun item _ => Ordering.stableSort_perm _

/-- An agenda holds some exams, each once. Its lists ascend, and the exams of a group stand under the slot of
the group. -/
structure Holds (plan : Plan) (groups : List ExamGroup) (agenda : Agenda Exam) (held : List Exam) : Prop where
  complete : agenda.values.Perm held
  slots : (agenda.map (·.1)).Nodup
  ascending : ∀ item ∈ agenda, (item.2.map (·.ancode)).Pairwise (· < ·)
  filed : ∀ item ∈ agenda, ∀ exam ∈ item.2, ∀ group ∈ groups, exam.ancode ∈ group.exams →
    ⟨group.code, item.1⟩ ∈ plan.placements

section
variable {plan : Plan} {groups : List ExamGroup} {held : List Exam} {agenda : Agenda Exam}

private theorem keepExams_values (kept : Exam → Bool) (agenda : Agenda Exam) :
    (keepExams kept agenda).values = agenda.values.filter kept := by
  induction agenda with
  | nil => rfl
  | cons item rest ih =>
    unfold keepExams at *
    rw [values_cons, List.filter_append, ← ih, List.map_cons]
    cases left : item.2.filter kept with
    | nil => rw [List.filter_cons_of_neg (by simp), List.nil_append]
    | cons exam others => rw [List.filter_cons_of_pos (by simp), values_cons]

theorem Holds.keep (holds : Holds plan groups agenda held) (kept : Exam → Bool) :
    Holds plan groups (keepExams kept agenda) (held.filter kept) := by
  constructor
  · rw [keepExams_values]
    exact holds.complete.filter kept
  · exact holds.slots.sublist (keepExams_slots kept agenda)
  · intro item listed
    obtain ⟨all, present, rest⟩ := mem_keepExams listed
    rw [rest]
    exact (holds.ascending _ present).sublist (List.filter_sublist.map _)
  · intro item listed exam within group isGroup inside
    obtain ⟨all, present, rest⟩ := mem_keepExams listed
    rw [rest] at within
    exact holds.filed _ present exam (List.mem_filter.mp within).1 group isGroup inside

end

section
variable {calendar : Calendar} {exams : List Exam} {committed : List Placement} {groups : List ExamGroup}
  {plan : Plan}

/-- The exams of the groups that have to be placed. -/
def placeableExams (groups : List ExamGroup) (exams : List Exam) : List Exam :=
  exams.filter fun exam => (groups.filter ExamGroup.isPlaceable).any (·.exams.contains exam.ancode)

private theorem mem_placeableExams {exam : Exam} : exam ∈ placeableExams groups exams ↔
    exam ∈ exams ∧ ∃ group ∈ groups.filter ExamGroup.isPlaceable, exam.ancode ∈ group.exams := by
  simp [placeableExams, and_assoc]

def PlacesAll (plan : Plan) (groups : List ExamGroup) : Prop :=
  (plan.placements.map (·.group)).Perm ((groups.filter ExamGroup.isPlaceable).map (·.code))

theorem PlacesAll.distinct (placed : PlacesAll plan groups) (codes : (groups.map (·.code)).Nodup) :
    (plan.placements.map (·.group)).Nodup :=
  placed.nodup_iff.mpr (codes.sublist (List.filter_sublist.map _))

theorem PlacesAll.placeable (placed : PlacesAll plan groups) (codes : (groups.map (·.code)).Nodup)
    {group : ExamGroup} {slot : Slot} (listed : group ∈ groups) (entry : ⟨group.code, slot⟩ ∈ plan.placements) :
    group ∈ groups.filter ExamGroup.isPlaceable := by
  have named : group.code ∈ plan.placements.map (·.group) := List.mem_map.mpr ⟨_, entry, rfl⟩
  obtain ⟨other, present, same⟩ := List.mem_map.mp (placed.mem_iff.mp named)
  rw [← Lookups.eq_of_key codes (List.mem_filter.mp present).1 listed same]
  exact present

private theorem PlacesAll.exists_slot (placed : PlacesAll plan groups) {group : ExamGroup}
    (listed : group ∈ groups.filter ExamGroup.isPlaceable) : ∃ slot, ⟨group.code, slot⟩ ∈ plan.placements := by
  have named : group.code ∈ plan.placements.map (·.group) := placed.mem_iff.mpr (List.mem_map_of_mem listed)
  obtain ⟨⟨_, slot⟩, entry, rfl⟩ := List.mem_map.mp named
  exact ⟨slot, entry⟩

private theorem examOf?_eq (distinct : (exams.map (·.ancode)).Nodup) {exam : Exam} (known : exam ∈ exams) :
    examOf? exams exam.ancode = some exam :=
  Lookups.getLast?_key distinct known

/-- Filed exams are those of the groups that have to be placed. -/
theorem scheduledExams_complete (distinct : (exams.map (·.ancode)).Nodup)
    (apart : (groups.flatMap (·.exams)).Nodup) (codes : (groups.map (·.code)).Nodup)
    (placed : PlacesAll plan groups) :
    (scheduledExams plan groups exams).values.Perm (placeableExams groups exams) := by
  refine (scheduledExams_values plan groups exams).trans ?_
  have once : ((groups.flatMap (entriesOf plan exams)).map (·.2)).Nodup := by
    apply List.Nodup.of_map Exam.ancode
    rw [List.map_map]
    exact entries_nodup apart
  apply (List.perm_ext_iff_of_nodup once (distinct.of_map.filter _)).mpr
  intro exam
  rw [← placeableExams, mem_placeableExams]
  constructor
  · intro filed
    obtain ⟨⟨slot, _⟩, entry, rfl⟩ := List.mem_map.mp filed
    obtain ⟨group, listed, entry⟩ := List.mem_flatMap.mp entry
    obtain ⟨slotted, ancode, within, found⟩ := mem_entriesOf.mp entry
    obtain ⟨known, rfl⟩ := examOf?_some found
    have entered := (slotOf?_iff (placed.distinct codes)).mp slotted
    exact ⟨known, group, placed.placeable codes listed entered, within⟩
  · rintro ⟨known, group, listed, within⟩
    obtain ⟨slot, entered⟩ := placed.exists_slot listed
    refine List.mem_map.mpr ⟨(slot, exam), List.mem_flatMap.mpr ⟨group, (List.mem_filter.mp listed).1, ?_⟩, rfl⟩
    exact mem_entriesOf.mpr ⟨(slotOf?_iff (placed.distinct codes)).mpr entered, _, within, examOf?_eq distinct known⟩

private theorem scheduledExams_ascending (apart : (groups.flatMap (·.exams)).Nodup) {item : Slot × List Exam}
    (listed : item ∈ scheduledExams plan groups exams) : (item.2.map (·.ancode)).Pairwise (· < ·) := by
  refine Ordering.increasing_of_nodup ?_ (scheduledExams_distinct apart listed)
  rw [scheduledExams_eq] at listed
  obtain ⟨bare, -, rfl⟩ := List.mem_map.mp listed
  exact Ordering.stableSort_keys_ascending Exam.ancode _

private theorem scheduledExams_filed {item : Slot × List Exam} {exam : Exam}
    (listed : item ∈ scheduledExams plan groups exams) (within : exam ∈ item.2) :
    ∃ group ∈ groups, plan.slotOf? group.code = some item.1 ∧ exam.ancode ∈ group.exams := by
  rw [scheduledExams_eq] at listed
  obtain ⟨⟨slot, all⟩, present, rfl⟩ := List.mem_map.mp listed
  rw [Ordering.mem_stableSort] at within
  obtain ⟨group, isGroup, entry⟩ := List.mem_flatMap.mp ((mem_filed present).mp within)
  obtain ⟨slotted, ancode, inside, found⟩ := mem_entriesOf.mp entry
  obtain ⟨-, rfl⟩ := examOf?_some found
  exact ⟨group, isGroup, slotted, inside⟩

private theorem scheduledExams_holds (distinct : (exams.map (·.ancode)).Nodup)
    (placed : PlacesAll plan (grouped calendar exams committed).groups) :
    Holds plan (grouped calendar exams committed).groups
      (scheduledExams plan (grouped calendar exams committed).groups exams)
      (placeableExams (grouped calendar exams committed).groups exams) := by
  have codes := @grouped_codes_nodup calendar exams committed distinct
  have apart := @grouped_exams_nodup calendar exams committed distinct
  constructor
  · exact scheduledExams_complete distinct apart codes placed
  · exact (scheduledExams_chronological _ _ _).slots
  · intro item listed
    exact scheduledExams_ascending apart listed
  · intro item listed exam within group isGroup inside
    obtain ⟨other, isOther, slotted, also⟩ := scheduledExams_filed listed within
    rw [grouped_eq_of_shared distinct isGroup isOther inside also]
    exact (slotOf?_iff (placed.distinct codes)).mp slotted

/-- A group with an exam that is planned here is planned here, whatever its other exams are. -/
theorem internal_of_planned (distinct : (exams.map (·.ancode)).Nodup) {group : ExamGroup}
    (listed : group ∈ (grouped calendar exams committed).groups) {exam : Exam} (known : exam ∈ exams)
    (within : exam.ancode ∈ group.exams) (planned : exam.constraints.plannedElsewhere = false) :
    group.isExternal = false := by
  obtain ⟨members, isList, -, held, state, -⟩ := group_members distinct listed
  rw [held] at within
  have inside := (ancode_mem_iff distinct isList known).mp within
  rw [ExamGroup.isExternal, state, countedGroup, bareGroup, CommittedGroups.stateOf_isExternal, List.all_eq_false]
  exact ⟨exam, inside, by simp [planned]⟩

private theorem needsRoom_placeable (distinct : (exams.map (·.ancode)).Nodup) {exam : Exam} (known : exam ∈ exams)
    (needs : exam.needsRoom = true) : exam ∈ placeableExams (grouped calendar exams committed).groups exams := by
  obtain ⟨group, listed, within⟩ := @exists_group calendar exams committed distinct exam known
  have planned : exam.constraints.plannedElsewhere = false := by
    simp only [Exam.needsRoom, Bool.and_eq_true, Bool.not_eq_true'] at needs
    exact needs.1
  have internal := internal_of_planned distinct listed known within planned
  exact mem_placeableExams.mpr ⟨known, group, placeable_of_internal listed internal, within⟩

private theorem placeable_needing_rooms (distinct : (exams.map (·.ancode)).Nodup) :
    (placeableExams (grouped calendar exams committed).groups exams).filter Exam.needsRoom =
      exams.filter Exam.needsRoom := by
  rw [placeableExams, List.filter_filter]
  apply List.filter_congr
  intro exam known
  cases needs : exam.needsRoom with
  | false => rw [Bool.false_and]
  | true =>
    have placeable : exam ∈ placeableExams (grouped calendar exams committed).groups exams :=
      needsRoom_placeable distinct known needs
    rw [Bool.true_and]
    exact (List.mem_filter.mp placeable).2

end

/-- A plan that places every group that has to be placed takes along each of their exams, and rooms are
allocated for every exam that is planned here and not online. All of a group stands under one slot. -/
theorem no_exam_is_dropped {input : PlanningInput} {config : Config} {groups : List ExamGroup} {plan : Plan}
    (prepared : prepare input config = .ok groups)
    (placed : (plan.placements.map (·.group)).Perm ((groups.filter ExamGroup.isPlaceable).map (·.code))) :
    Holds plan groups (examsNeedingRooms plan groups input.exams) (input.exams.filter Exam.needsRoom) ∧
    Holds plan groups (scheduledExams plan groups input.exams) (placeableExams groups input.exams) ∧
    ∀ group ∈ groups.filter ExamGroup.isPlaceable, ∃ slot, ⟨group.code, slot⟩ ∈ plan.placements ∧
      ∀ item ∈ scheduledExams plan groups input.exams ++ examsNeedingRooms plan groups input.exams,
        ∀ exam ∈ item.2, exam.ancode ∈ group.exams → item.1 = slot := by
  obtain ⟨accepted, rfl⟩ := InputChecks.prepare_ok_iff.mp prepared
  have distinct := accepted.distinct_exams
  have codes := @grouped_codes_nodup (input.calendar config) input.exams input.committed distinct
  have all := scheduledExams_holds distinct placed
  have rooms := all.keep Exam.needsRoom
  rw [placeable_needing_rooms distinct, ← examsNeedingRooms_eq] at rooms
  refine ⟨rooms, all, ?_⟩
  intro group listed
  obtain ⟨slot, entered⟩ := PlacesAll.exists_slot placed listed
  refine ⟨slot, entered, ?_⟩
  intro item present exam within inside
  have isGroup := (List.mem_filter.mp listed).1
  have filed : ⟨group.code, item.1⟩ ∈ plan.placements := by
    rcases List.mem_append.mp present with here | there
    · exact all.filed item here exam within group isGroup inside
    · exact rooms.filed item there exam within group isGroup inside
  have same := Lookups.eq_of_key (PlacesAll.distinct placed codes) filed entered rfl
  exact congrArg Placement.slot same

/-- Exam 4 is planned here together with an exam that is not. Exam 2 is online, exam 3 is of no concern. -/
def mixed : PlanningInput := { PlanStages.twoDays with
  exams := [
    ⟨1, "One", "prof", 90, .regular, [⟨"IF", ["a"]⟩], { plannedElsewhere := true, sameSlot := [4] }⟩,
    ⟨2, "Two", "prof", 60, .regular, [⟨"IF", ["b"]⟩], { rooms := { online := true } }⟩,
    ⟨3, "Three", "prof", 60, .regular, [⟨"IF", ["c"]⟩], { plannedElsewhere := true }⟩,
    ⟨4, "Four", "prof", 60, .regular, [⟨"IF", ["d"]⟩], {}⟩]
  committed := [] }

def mixedGroups : List ExamGroup :=
  [⟨1, [1, 4], 2, 90, [⟨1, 1⟩, ⟨2, 1⟩], [], .scheduled⟩, ⟨2, [2], 1, 60, [⟨1, 1⟩, ⟨2, 1⟩], [], .scheduled⟩,
    ⟨3, [3], 1, 60, [⟨1, 1⟩, ⟨2, 1⟩], [], .external none⟩]

def mixedPlan : Plan := .ofPlacements [⟨2, ⟨2, 1⟩⟩, ⟨1, ⟨1, 1⟩⟩]

theorem mixed_exams_are_kept : prepare mixed (PlanStages.briefly 0) = .ok mixedGroups ∧
    ((examsNeedingRooms mixedPlan mixedGroups mixed.exams).values.map (·.ancode)).Perm [4] ∧
    ((scheduledExams mixedPlan mixedGroups mixed.exams).values.map (·.ancode)).Perm [1, 2, 4] := by
  have prepared : prepare mixed (PlanStages.briefly 0) = .ok mixedGroups := by decide +kernel
  have placed : (mixedPlan.placements.map (·.group)).Perm
      ((mixedGroups.filter ExamGroup.isPlaceable).map (·.code)) := by decide
  obtain ⟨rooms, all, -⟩ := no_exam_is_dropped prepared placed
  exact ⟨prepared, rooms.complete.map _, all.complete.map _⟩

end Timetable.Proofs.AgendaContents
