import Mathlib.Data.List.Perm.Basic
import Timetable.Proofs.Lookups
import Timetable.Proofs.Returned
import Timetable.Seating.Demand

/-! The students that are still to be seated. A demand begins with every registrant of its exam
once, and each change says who leaves it. -/

namespace Timetable.Proofs.SeatDemands
open Returned

def pending (demand : Demand) : List StudentId :=
  demand.normal ++ (demand.extended ++ demand.alone).map (·.student)

def remaining (ancode : Ancode) (demands : List Demand) : List StudentId :=
  (demands.filter (·.exam.ancode = ancode)).flatMap pending

variable {demand rest : Demand} {demands : List Demand} {ancode : Ancode} {student : StudentId}
  {records : List Accommodation} {exam : Exam}

theorem exists_split {α : Type} {items : List α} {place : Nat} {item : α}
    (present : items[place]? = some item) :
    ∃ front back, items = front ++ item :: back ∧ ∀ other, items.set place other = front ++ other :: back := by
  obtain ⟨inside, rfl⟩ := List.getElem?_eq_some_iff.mp present
  refine ⟨items.take place, items.drop (place + 1), ?_, fun other => ?_⟩
  · rw [← List.drop_eq_getElem_cons inside, List.take_append_drop]
  · rw [List.set_eq_take_append_cons_drop, if_pos inside]

theorem mem_remaining :
    student ∈ remaining ancode demands ↔
      ∃ demand ∈ demands, demand.exam.ancode = ancode ∧ student ∈ pending demand := by
  simp [remaining, and_assoc]

private theorem remaining_append (first second : List Demand) :
    remaining ancode (first ++ second) = remaining ancode first ++ remaining ancode second := by
  simp [remaining]

theorem remaining_cons (demand : Demand) (demands : List Demand) :
    remaining ancode (demand :: demands) = remaining ancode [demand] ++ remaining ancode demands :=
  remaining_append [demand] demands

theorem remaining_one (demand : Demand) :
    remaining ancode [demand] = if demand.exam.ancode = ancode then pending demand else [] := by
  by_cases same : demand.exam.ancode = ancode <;> simp [remaining, same]

/-- Where exams are distinct, what is left of one is in its only demand. -/
theorem remaining_eq (distinct : (demands.map (·.exam.ancode)).Nodup) (member : demand ∈ demands) :
    remaining demand.exam.ancode demands = pending demand := by
  rw [remaining, Lookups.filter_key distinct member, List.flatMap_singleton]

theorem exams_set {index : Nat} (present : demands[index]? = some demand)
    (same : rest.exam = demand.exam) : (demands.set index rest).map (·.exam) = demands.map (·.exam) := by
  obtain ⟨front, back, split, replaced⟩ := exists_split present
  rw [replaced, split, List.map_append, List.map_append, List.map_cons, List.map_cons, same]

theorem ancodes_set {index : Nat} (present : demands[index]? = some demand) (same : rest.exam = demand.exam) :
    (demands.set index rest).map (·.exam.ancode) = demands.map (·.exam.ancode) := by
  simpa [Function.comp_def] using congrArg (List.map Exam.ancode) (exams_set present same)

theorem remaining_set_other {index : Nat} (present : demands[index]? = some demand)
    (same : rest.exam = demand.exam) (other : demand.exam.ancode ≠ ancode) :
    remaining ancode (demands.set index rest) = remaining ancode demands := by
  obtain ⟨front, back, split, replaced⟩ := exists_split present
  rw [replaced, split, remaining_append, remaining_append, remaining_cons demand, remaining_cons rest,
    remaining_one, remaining_one, same, if_neg other, if_neg other]

theorem remaining_set_own {index : Nat} (distinct : (demands.map (·.exam.ancode)).Nodup)
    (present : demands[index]? = some demand) (same : rest.exam = demand.exam) :
    remaining demand.exam.ancode (demands.set index rest) = pending rest := by
  rw [← ancodes_set present same] at distinct
  rw [← same]
  exact remaining_eq distinct (List.mem_set (List.getElem?_eq_some_iff.mp present).1 rest)

/-- The students taken out of one demand leave the demands of its exam, and no others. -/
theorem remaining_set {index : Nat} {taken : List StudentId} (present : demands[index]? = some demand)
    (same : rest.exam = demand.exam) (leaves : (pending demand).Perm (taken ++ pending rest))
    (ancode : Ancode) :
    (remaining ancode demands).Perm
      ((if demand.exam.ancode = ancode then taken else []) ++ remaining ancode (demands.set index rest)) := by
  obtain ⟨front, back, split, replaced⟩ := exists_split present
  rw [replaced, split, remaining_append, remaining_append, remaining_cons demand, remaining_cons rest,
    remaining_one, remaining_one, same]
  split
  · have moved : (remaining ancode front ++ (taken ++ (pending rest ++ remaining ancode back))).Perm
        (taken ++ (remaining ancode front ++ (pending rest ++ remaining ancode back))) := by
      rw [← List.append_assoc, ← List.append_assoc taken]
      exact List.perm_append_comm.append_right _
    refine List.Perm.trans (.append_left _ ?_) moved
    rw [← List.append_assoc]
    exact leaves.append_right _
  · exact .refl _

theorem mem_remaining_of_set {index : Nat} (present : demands[index]? = some demand)
    (same : rest.exam = demand.exam) (left : ∀ student ∈ pending rest, student ∈ pending demand)
    (waiting : student ∈ remaining ancode (demands.set index rest)) : student ∈ remaining ancode demands := by
  obtain ⟨other, member, exam, inside⟩ := mem_remaining.mp waiting
  rcases List.mem_or_eq_of_mem_set member with member | rfl
  · exact mem_remaining.mpr ⟨other, member, exam, inside⟩
  · exact mem_remaining.mpr ⟨demand, List.mem_of_getElem? present, same ▸ exam, left student inside⟩

theorem mem_remaining_set {index : Nat} {taken : List StudentId}
    (present : demands[index]? = some demand) (same : rest.exam = demand.exam)
    (kept : ∀ student ∈ pending demand, student ∈ pending rest ∨ student ∈ taken)
    (waiting : student ∈ remaining ancode demands) :
    student ∈ remaining ancode (demands.set index rest) ∨ demand.exam.ancode = ancode ∧ student ∈ taken := by
  obtain ⟨front, back, split, replaced⟩ := exists_split present
  obtain ⟨other, member, exam, inside⟩ := mem_remaining.mp waiting
  rw [replaced, mem_remaining]
  rw [split, List.mem_append, List.mem_cons] at member
  rcases member with member | rfl | member
  · exact .inl ⟨other, List.mem_append_left _ member, exam, inside⟩
  · refine (kept student inside).imp (fun inside => ?_) (fun seated => ⟨exam, seated⟩)
    exact ⟨rest, List.mem_append_right _ List.mem_cons_self, same ▸ exam, inside⟩
  · exact .inl ⟨other, List.mem_append_right _ (List.mem_cons_of_mem _ member), exam, inside⟩

theorem pending_drop (demand : Demand) (n : Nat) :
    pending demand = demand.firstNormal n ++ pending (demand.dropNormal n) := by
  simp only [pending, Demand.firstNormal, Demand.dropNormal]
  rw [← List.append_assoc, List.take_append_drop]

theorem pending_without (demand : Demand) (seated : List StudentId) :
    pending (demand.without seated) = (pending demand).filter fun student => !seated.contains student := by
  simp only [pending, Demand.without, List.filter_append, List.map_append, List.filter_map]
  rfl

theorem mem_pending_without (demand : Demand) (seated : List StudentId) :
    student ∈ pending (demand.without seated) ↔ student ∈ pending demand ∧ student ∉ seated := by
  rw [pending_without, List.mem_filter, Bool.not_eq_true', List.contains_eq_mem, decide_eq_false_iff_not]

/-- Timing students neither drops nor doubles one whose grant has the form asked for. -/
theorem timed_students {percentOf? : StudentId → Option Nat} {entries : List TimedStudent}
    (returned : Demand.timed exam percentOf? = .ok entries) :
    entries.map (·.student) = exam.registrants.filter fun student => (percentOf? student).isSome := by
  rw [Demand.timed] at returned
  generalize exam.registrants = students at returned ⊢
  induction students generalizing entries with
  | nil =>
    rw [← pure_ok returned]
    rfl
  | cons student students ih =>
    cases granted : percentOf? student with
    | none =>
      rw [List.filter_cons_of_neg (by simp [granted])]
      exact ih (by simpa [granted] using returned)
    | some percent =>
      rw [List.filterMap_cons_some (by rw [granted]; rfl), List.mapM_cons] at returned
      obtain ⟨first, timed, returned⟩ := bind_ok returned
      obtain ⟨later, others, returned⟩ := bind_ok returned
      obtain ⟨minutes, -, timed⟩ := bind_ok timed
      rw [← pure_ok returned, ← pure_ok timed, List.filter_cons_of_pos (by simp [granted]),
        List.map_cons, ih others]

private theorem perm_of_kinds {α : Type} {first second third : α → Bool} (items : List α)
    (one : ∀ item, first item = true ∧ second item = false ∧ third item = false ∨
      first item = false ∧ second item = true ∧ third item = false ∨
      first item = false ∧ second item = false ∧ third item = true) :
    (items.filter first ++ (items.filter second ++ items.filter third)).Perm items := by
  induction items with
  | nil => exact .refl _
  | cons item items ih =>
    rcases one item with ⟨here, there, last⟩ | ⟨here, there, last⟩ | ⟨here, there, last⟩
    · simpa [here, there, last] using ih
    · simpa [here, there, last] using List.perm_middle.trans (ih.cons item)
    · simp only [List.filter_cons, here, there, last, Bool.false_eq_true, if_false, if_true]
      rw [← List.append_assoc] at ih ⊢
      exact List.perm_middle.trans (ih.cons item)

/-- Every registrant is in the demand of an exam exactly once. -/
theorem pending_ofExam (returned : Demand.ofExam records exam = .ok demand) :
    demand.exam = exam ∧ (pending demand).Perm exam.registrants := by
  obtain ⟨extended, timed, returned⟩ := bind_ok returned
  obtain ⟨alone, single, returned⟩ := bind_ok returned
  rw [← pure_ok returned]
  refine ⟨rfl, ?_⟩
  simp only [pending, List.map_append, timed_students timed, timed_students single]
  refine perm_of_kinds _ fun student => ?_
  cases granted : Grant.of records student <;> simp

end Timetable.Proofs.SeatDemands
