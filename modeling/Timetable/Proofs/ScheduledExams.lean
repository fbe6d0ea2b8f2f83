import Timetable.Planning
import Timetable.Proofs.Chronology
import Timetable.Proofs.GroupMembership
import Mathlib.Data.List.Flatten

/-! The exams of a plan under their slots. An exam stands under the slot of its group and nowhere else,
and nothing about the groups counts here but their exams. -/

namespace Timetable.Proofs.ScheduledExams
open Chronology

section
variable {α : Type}

theorem values_cons (item : Slot × List α) (agenda : Agenda α) :
    Agenda.values (item :: agenda) = item.2 ++ agenda.values :=
  List.flatMap_cons

theorem mem_slots_ofEntries {entries : List (Slot × α)} {slot : Slot} :
    slot ∈ (Agenda.ofEntries entries).map (·.1) ↔ slot ∈ entries.map (·.1) := by
  rw [slots_ofEntries, mem_slotsOf]

private theorem mem_ofEntries {entries : List (Slot × α)} {item : Slot × List α}
    (listed : item ∈ Agenda.ofEntries entries) :
    item.1 ∈ entries.map (·.1) ∧ (item.2.Sublist (entries.map (·.2))) := by
  refine ⟨mem_slots_ofEntries.mp (List.mem_map_of_mem listed), ?_⟩
  obtain ⟨slot, -, rfl⟩ := List.mem_map.mp listed
  exact List.filter_sublist.map _

theorem mem_filed {entries : List (Slot × α)} {slot : Slot} {values : List α} {value : α}
    (listed : (slot, values) ∈ Agenda.ofEntries entries) : value ∈ values ↔ (slot, value) ∈ entries := by
  obtain ⟨other, -, same⟩ := List.mem_map.mp listed
  cases same
  constructor
  · intro member
    obtain ⟨entry, kept, rfl⟩ := List.mem_map.mp member
    obtain ⟨present, here⟩ := List.mem_filter.mp kept
    rw [← of_decide_eq_true here]
    exact present
  · intro member
    exact List.mem_map.mpr ⟨_, List.mem_filter.mpr ⟨member, decide_eq_true rfl⟩, rfl⟩

end

theorem examOf?_some {exams : List Exam} {ancode : Ancode} {exam : Exam}
    (found : examOf? exams ancode = some exam) : exam ∈ exams ∧ exam.ancode = ancode := by
  obtain ⟨member, same⟩ := List.mem_filter.mp (List.mem_of_getLast? found)
  exact ⟨member, of_decide_eq_true same⟩

def entriesOf (plan : Plan) (exams : List Exam) (group : ExamGroup) : List (Slot × Exam) :=
  match plan.slotOf? group.code with
  | none => []
  | some slot => (group.exams.filterMap (examOf? exams)).map (slot, ·)

theorem scheduledExams_eq (plan : Plan) (groups : List ExamGroup) (exams : List Exam) :
    scheduledExams plan groups exams =
      (Agenda.ofEntries (groups.flatMap (entriesOf plan exams))).map fun item =>
        (item.1, stableSort (fun a b => a.ancode ≤ b.ancode) item.2) := rfl

variable {plan : Plan} {groups : List ExamGroup} {exams : List Exam} {group : ExamGroup}
  {item : Slot × List Exam}

theorem slotOf?_iff {code : GroupCode} {slot : Slot} (distinct : (plan.placements.map (·.group)).Nodup) :
    plan.slotOf? code = some slot ↔ ⟨code, slot⟩ ∈ plan.placements := by
  unfold Plan.slotOf?
  constructor
  · intro found
    obtain ⟨placement, first, rfl⟩ := Option.map_eq_some_iff.mp found
    obtain rfl : placement.group = code := by simpa using List.find?_some first
    exact List.mem_of_find?_eq_some first
  · intro placed
    have first := Lookups.find?_key distinct placed
    rw [first, Option.map_some]

theorem mem_entriesOf {entry : Slot × Exam} : entry ∈ entriesOf plan exams group ↔
    plan.slotOf? group.code = some entry.1 ∧ ∃ ancode ∈ group.exams, examOf? exams ancode = some entry.2 := by
  obtain ⟨slot, exam⟩ := entry
  unfold entriesOf
  cases placed : plan.slotOf? group.code with
  | none => simp
  | some other =>
    simp only [List.mem_map, List.mem_filterMap, Prod.mk.injEq, Option.some.injEq]
    constructor
    · rintro ⟨_, looked, rfl, rfl⟩
      exact ⟨rfl, looked⟩
    · rintro ⟨rfl, looked⟩
      exact ⟨_, looked, rfl, rfl⟩

private theorem filterMap_ancodes (ancodes : List Ancode) :
    ((ancodes.filterMap (examOf? exams)).map (·.ancode)).Sublist ancodes := by
  induction ancodes with
  | nil => exact List.Sublist.slnil
  | cons ancode rest ih =>
    cases found : examOf? exams ancode with
    | none =>
      rw [List.filterMap_cons_none found]
      exact ih.cons ancode
    | some exam =>
      rw [List.filterMap_cons_some found, List.map_cons, (examOf?_some found).2]
      exact ih.cons_cons ancode

private theorem entriesOf_ancodes (plan : Plan) (exams : List Exam) (group : ExamGroup) :
    ((entriesOf plan exams group).map (·.2.ancode)).Sublist group.exams := by
  unfold entriesOf
  split
  · exact List.nil_sublist _
  · rw [List.map_map]
    exact filterMap_ancodes group.exams

theorem scheduledExams_chronological (plan : Plan) (groups : List ExamGroup) (exams : List Exam) :
    Chronological (scheduledExams plan groups exams) := by
  rw [Chronological, scheduledExams_eq, List.map_map]
  exact chronological_ofEntries _

private theorem scheduledExams_known (listed : item ∈ scheduledExams plan groups exams) :
    (∃ group ∈ groups, plan.slotOf? group.code = some item.1) ∧ ∀ exam ∈ item.2, exam ∈ exams := by
  rw [scheduledExams_eq] at listed
  obtain ⟨bare, present, rfl⟩ := List.mem_map.mp listed
  obtain ⟨slot, within⟩ := mem_ofEntries present
  constructor
  · obtain ⟨entry, member, same⟩ := List.mem_map.mp slot
    obtain ⟨group, isGroup, member⟩ := List.mem_flatMap.mp member
    exact ⟨group, isGroup, same ▸ (mem_entriesOf.mp member).1⟩
  · intro exam member
    rw [Ordering.mem_stableSort] at member
    obtain ⟨entry, inside, rfl⟩ := List.mem_map.mp (within.subset member)
    obtain ⟨group, -, inside⟩ := List.mem_flatMap.mp inside
    obtain ⟨-, ancode, -, found⟩ := mem_entriesOf.mp inside
    exact (examOf?_some found).1

theorem entries_nodup (apart : (groups.flatMap (·.exams)).Nodup) :
    ((groups.flatMap (entriesOf plan exams)).map (·.2.ancode)).Nodup := by
  refine apart.sublist ?_
  rw [List.map_flatMap]
  exact List.Sublist.flatMap_right _ fun group _ => entriesOf_ancodes plan exams group

theorem scheduledExams_distinct (apart : (groups.flatMap (·.exams)).Nodup)
    (listed : item ∈ scheduledExams plan groups exams) : (item.2.map (·.ancode)).Nodup := by
  rw [scheduledExams_eq] at listed
  obtain ⟨bare, present, rfl⟩ := List.mem_map.mp listed
  have within := (mem_ofEntries present).2.map (·.ancode)
  rw [List.map_map] at within
  exact ((Ordering.stableSort_perm _).map _).nodup_iff.mpr ((entries_nodup apart).sublist within)

/-- Only the exams and the code of a group count, and only the placements of a plan. -/
theorem entriesOf_congr {again : Plan} {other : ExamGroup} (same : again.placements = plan.placements)
    (code : other.code = group.code) (members : other.exams = group.exams) :
    entriesOf again exams other = entriesOf plan exams group := by
  simp only [entriesOf, Plan.slotOf?, code, members, same]

theorem scheduledExams_map {again : Plan} (same : again.placements = plan.placements)
    {f : ExamGroup → ExamGroup} (codes : ∀ group, (f group).code = group.code)
    (members : ∀ group, (f group).exams = group.exams) :
    scheduledExams again (groups.map f) exams = scheduledExams plan groups exams := by
  have each : ∀ group, entriesOf again exams (f group) = entriesOf plan exams group :=
    fun group => entriesOf_congr same (codes group) (members group)
  rw [scheduledExams_eq, scheduledExams_eq, List.flatMap_map]
  simp only [each]

theorem scheduledExams_congr {again : Plan} (same : again.placements = plan.placements) :
    scheduledExams again groups exams = scheduledExams plan groups exams := by
  have each : entriesOf again exams = entriesOf plan exams :=
    funext fun group => entriesOf_congr same rfl rfl
  rw [scheduledExams_eq, scheduledExams_eq, each]

/-- The agenda without some of its exams, and without the lists that this empties. -/
def keepExams (kept : Exam → Bool) (agenda : Agenda Exam) : Agenda Exam :=
  (agenda.map fun item => (item.1, item.2.filter kept)).filter fun item => !item.2.isEmpty

theorem examsNeedingRooms_eq (plan : Plan) (groups : List ExamGroup) (exams : List Exam) :
    examsNeedingRooms plan groups exams = keepExams Exam.needsRoom (scheduledExams plan groups exams) := rfl

section
variable {kept : Exam → Bool} {agenda : Agenda Exam}

theorem mem_keepExams (listed : item ∈ keepExams kept agenda) :
    ∃ all, (item.1, all) ∈ agenda ∧ item.2 = all.filter kept := by
  obtain ⟨⟨slot, all⟩, present, rfl⟩ := List.mem_map.mp (List.mem_filter.mp listed).1
  exact ⟨all, present, rfl⟩

theorem keepExams_slots (kept : Exam → Bool) (agenda : Agenda Exam) :
    ((keepExams kept agenda).map (·.1)).Sublist (agenda.map (·.1)) := by
  have slots : (agenda.map fun item => (item.1, item.2.filter kept)).map (·.1) = agenda.map (·.1) := by
    rw [List.map_map]
    rfl
  rw [← slots]
  exact List.filter_sublist.map _

end

private theorem mem_examsNeedingRooms (listed : item ∈ examsNeedingRooms plan groups exams) :
    ∃ all, (item.1, all) ∈ scheduledExams plan groups exams ∧ item.2 = all.filter Exam.needsRoom :=
  mem_keepExams listed

theorem examsNeedingRooms_known (listed : item ∈ examsNeedingRooms plan groups exams) :
    (∃ group ∈ groups, plan.slotOf? group.code = some item.1) ∧ ∀ exam ∈ item.2, exam ∈ exams := by
  obtain ⟨all, present, rest⟩ := mem_examsNeedingRooms listed
  obtain ⟨placed, known⟩ := scheduledExams_known present
  rw [rest]
  exact ⟨placed, fun exam member => known exam (List.mem_filter.mp member).1⟩

/-- The agenda that rooms are allocated for is in the order of time. -/
theorem examsNeedingRooms_chronological (plan : Plan) (groups : List ExamGroup) (exams : List Exam) :
    Chronological (examsNeedingRooms plan groups exams) :=
  (scheduledExams_chronological plan groups exams).sublist (keepExams_slots Exam.needsRoom _)

theorem examsNeedingRooms_slots (plan : Plan) (groups : List ExamGroup) (exams : List Exam) :
    ((examsNeedingRooms plan groups exams).map (·.1)).Nodup :=
  (examsNeedingRooms_chronological plan groups exams).slots

theorem examsNeedingRooms_distinct (apart : (groups.flatMap (·.exams)).Nodup)
    (listed : item ∈ examsNeedingRooms plan groups exams) : (item.2.map (·.ancode)).Nodup := by
  obtain ⟨all, present, rest⟩ := mem_examsNeedingRooms listed
  rw [rest]
  exact (scheduledExams_distinct apart present).sublist (List.filter_sublist.map _)

theorem examsNeedingRooms_map {again : Plan} (same : again.placements = plan.placements)
    {f : ExamGroup → ExamGroup} (codes : ∀ group, (f group).code = group.code)
    (members : ∀ group, (f group).exams = group.exams) :
    examsNeedingRooms again (groups.map f) exams = examsNeedingRooms plan groups exams := by
  rw [examsNeedingRooms, scheduledExams_map same codes members]
  rfl

theorem examsNeedingRooms_congr {again : Plan} (same : again.placements = plan.placements) :
    examsNeedingRooms again groups exams = examsNeedingRooms plan groups exams := by
  rw [examsNeedingRooms, scheduledExams_congr same]
  rfl

end Timetable.Proofs.ScheduledExams
