import Timetable.Proofs.InputChecks
import Mathlib.Data.List.Count
import Mathlib.Data.List.Induction

/-! The report on an input that is not well-formed. A problem stands where the check, the item and the part of the item
are at which it is found; the report lists the problems of all places, each place once and in their order. -/

namespace Timetable.Proofs.ProblemReports
open Validation InputChecks

/-- Where a problem is found: by which check, at which item of the list it goes through, and in which part of the
item. -/
structure Position where
  check : Nat
  item : Nat
  part : Nat
deriving DecidableEq, Repr

/-- Checks go one after the other, a check goes through its list, and an item is looked at part by part. -/
def Position.Before (first second : Position) : Prop :=
  first.check < second.check ∨ first.check = second.check ∧
    (first.item < second.item ∨ first.item = second.item ∧ first.part < second.part)

/-- What is wrong with an input, and where. Of equal values all but the first are wrong. -/
inductive Violation (input : PlanningInput) : Position → Problem → Prop where
  | noSlots : input.period.slots = [] → Violation input ⟨0, 0, 0⟩ .noSlots
  | duplicateSlot {i : Nat} {timed : TimedSlot} : input.period.slots[i]? = some timed →
      timed.slot ∈ (input.period.slots.take i).map (·.slot) →
      Violation input ⟨1, i, 0⟩ (.duplicateSlot timed.slot)
  | duplicateExam {i : Nat} {exam : Exam} : input.exams[i]? = some exam →
      exam.ancode ∈ (input.exams.take i).map (·.ancode) → Violation input ⟨2, i, 0⟩ (.duplicateExam exam.ancode)
  | duplicateRoom {i : Nat} {room : Room} : input.rooms[i]? = some room →
      room.name ∈ (input.rooms.take i).map (·.name) → Violation input ⟨3, i, 0⟩ (.duplicateRoom room.name)
  | duplicateInvigilator {i : Nat} {invigilator : Invigilator} : input.invigilators[i]? = some invigilator →
      invigilator.id ∈ (input.invigilators.take i).map (·.id) →
      Violation input ⟨4, i, 0⟩ (.duplicateInvigilator invigilator.id)
  | slotNotCountedFromOne {i : Nat} {timed : TimedSlot} : input.period.slots[i]? = some timed →
      timed.slot.day = 0 ∨ timed.slot.number = 0 → Violation input ⟨5, i, 0⟩ (.slotNotCountedFromOne timed.slot)
  | goSlotUnknown {i : Nat} {slot : Slot} : input.period.goSlots[i]? = some slot →
      slot ∉ input.period.slots.map (·.slot) → Violation input ⟨6, i, 0⟩ (.goSlotUnknown slot)
  | examWithoutDuration {i : Nat} {exam : Exam} : input.exams[i]? = some exam → exam.duration = 0 →
      Violation input ⟨7, i, 0⟩ (.examWithoutDuration exam.ancode)
  | linkToUnknownExam {i j : Nat} {exam : Exam} {linked : Ancode} : input.exams[i]? = some exam →
      exam.constraints.sameSlot[j]? = some linked → linked ∉ input.exams.map (·.ancode) →
      Violation input ⟨7, i, j + 1⟩ (.linkToUnknownExam exam.ancode linked)
  | roomWithoutSeats {i : Nat} {room : Room} : input.rooms[i]? = some room → room.seats = 0 →
      Violation input ⟨8, i, 0⟩ (.roomWithoutSeats room.name)
  | invalidFactor {i : Nat} {invigilator : Invigilator} : input.invigilators[i]? = some invigilator →
      invigilator.factor.isFinite = false ∨ invigilator.factor < 0 →
      Violation input ⟨9, i, 0⟩ (.invalidFactor invigilator.id invigilator.factor)
  | committedToUnknownSlot {i : Nat} {placement : Placement} : input.committed[i]? = some placement →
      placement.slot ∉ input.period.slots.map (·.slot) →
      Violation input ⟨10, i, 0⟩ (.committedToUnknownSlot placement.group placement.slot)
  | pinnedToUnknownSlot {i : Nat} {pin : Seating} : input.pinned[i]? = some pin →
      pin.slot ∉ input.period.slots.map (·.slot) →
      Violation input ⟨11, i, 0⟩ (.pinnedToUnknownSlot pin.room pin.ancode pin.slot)
  | pinnedForUnknownExam {i : Nat} {pin : Seating} : input.pinned[i]? = some pin →
      pin.ancode ∉ input.exams.map (·.ancode) → Violation input ⟨11, i, 1⟩ (.pinnedForUnknownExam pin.room pin.ancode)

/-- A list of problems is what is found at some places, each place once and in their order. -/
def Reported (found : Position → Problem → Prop) (problems : List Problem) : Prop :=
  ∃ report : List (Position × Problem), report.map (·.2) = problems ∧
    report.Pairwise (fun first second => first.1.Before second.1) ∧
    ∀ position problem, (position, problem) ∈ report ↔ found position problem

variable {α β : Type} {found later : Position → Problem → Prop} {problems others : List Problem} {items : List α}
  {input : PlanningInput} {check : Nat}

theorem Reported.congr (reported : Reported found problems)
    (same : ∀ position problem, later position problem ↔ found position problem) : Reported later problems := by
  obtain ⟨report, listed, ordered, places⟩ := reported
  exact ⟨report, listed, ordered, fun position problem => (places position problem).trans (same position problem).symm⟩

private theorem reported_nil : Reported (fun _ _ => False) [] :=
  ⟨[], rfl, .nil, fun _ _ => iff_of_false List.not_mem_nil id⟩

private theorem reported_if (condition : Prop) [Decidable condition] (place : Position) (problem : Problem) :
    Reported (fun position other => condition ∧ position = place ∧ other = problem)
      (if condition then [problem] else []) := by
  by_cases holds : condition
  · rw [if_pos holds]
    refine ⟨[(place, problem)], rfl, List.pairwise_singleton _ _, fun position other => ?_⟩
    simp [holds]
  · rw [if_neg holds]
    exact reported_nil.congr fun _ _ => iff_of_false (fun ⟨unmet, _⟩ => holds unmet) id

theorem Reported.append (first : Reported found problems) (second : Reported later others)
    (apart : ∀ p e q f, found p e → later q f → p.Before q) :
    Reported (fun position problem => found position problem ∨ later position problem) (problems ++ others) := by
  obtain ⟨report, rfl, ordered, places⟩ := first
  obtain ⟨rest, rfl, orderedRest, placesRest⟩ := second
  refine ⟨report ++ rest, List.map_append, ?_, fun position problem => ?_⟩
  · refine List.pairwise_append.mpr ⟨ordered, orderedRest, fun one member other memberRest => ?_⟩
    exact apart _ _ _ _ ((places one.1 one.2).mp member) ((placesRest other.1 other.2).mp memberRest)
  · rw [List.mem_append, places, placesRest]

/-- A check that goes through a list: what it says about an item depends on the items in front of it only. -/
theorem reported_scan (scan : List α → List Problem) (next : List α → α → List Problem)
    (found : List α → Nat → α → Position → Problem → Prop) (none : scan [] = [])
    (step : ∀ items item, scan (items ++ [item]) = scan items ++ next items item)
    (each : ∀ items item, Reported (found items items.length item) (next items item))
    (apart : ∀ {earlier i first p e later j second q f}, i < j → found earlier i first p e →
      found later j second q f → p.Before q) (items : List α) :
    Reported (fun position problem => ∃ i item, items[i]? = some item ∧ found (items.take i) i item position problem)
      (scan items) := by
  induction items using List.reverseRecOn with
  | nil =>
    rw [none]
    exact reported_nil.congr fun _ _ => iff_of_false (fun ⟨_, _, inside, _⟩ => nomatch inside) id
  | append_singleton items item ih =>
    rw [step]
    refine (ih.append (each items item) ?_).congr fun position problem => ⟨?_, ?_⟩
    · rintro p e q f ⟨i, first, inside, here⟩ there
      exact apart (List.getElem?_eq_some_iff.mp inside).1 here there
    · rintro ⟨i, other, inside, here⟩
      rcases Nat.lt_trichotomy i items.length with early | rfl | late
      · rw [List.getElem?_append_left early] at inside
        rw [List.take_append_of_le_length (Nat.le_of_lt early)] at here
        exact .inl ⟨i, other, inside, here⟩
      · rw [List.getElem?_concat_length] at inside
        obtain rfl := Option.some.inj inside
        rw [List.take_left] at here
        exact .inr here
      · rw [List.getElem?_eq_none (by rw [List.length_append]; exact late)] at inside
        cases inside
    · rintro (⟨i, other, inside, here⟩ | here)
      · have early := (List.getElem?_eq_some_iff.mp inside).1
        refine ⟨i, other, ?_, ?_⟩
        · rw [List.getElem?_append_left early, inside]
        · rwa [List.take_append_of_le_length (Nat.le_of_lt early)]
      · refine ⟨items.length, item, List.getElem?_concat_length, ?_⟩
        rwa [List.take_left]

/-- A check with one problem for each item that fails a test. -/
theorem reported_filter (test : α → Bool) (write : α → Problem) (place : Nat → Position)
    (ordered : ∀ i j, i < j → (place i).Before (place j)) (items : List α) :
    Reported (fun position problem => ∃ i item, items[i]? = some item ∧
      (test item = true ∧ position = place i ∧ problem = write item)) ((items.filter test).map write) := by
  refine reported_scan (fun items => (items.filter test).map write)
    (fun _ item => if test item = true then [write item] else [])
    (fun _ i item position problem => test item = true ∧ position = place i ∧ problem = write item) rfl
    (fun items item => ?_) (fun items item => reported_if _ _ _) ?_ items
  · rw [List.filter_append, List.map_append, List.filter_singleton]
    cases test item <;> rfl
  · rintro earlier i first p e later j second q f less ⟨-, rfl, -⟩ ⟨-, rfl, -⟩
    exact ordered i j less

private theorem repetitions_concat [BEq α] [LawfulBEq α] (seen items : List α) (item : α) :
    repetitions seen (items ++ [item]) =
      repetitions seen items ++ if item ∈ seen ∨ item ∈ items then [item] else [] := by
  induction items generalizing seen with
  | nil => by_cases before : item ∈ seen <;> simp [repetitions, before]
  | cons first rest ih =>
    rw [List.cons_append, repetitions, repetitions]
    by_cases before : first ∈ seen
    · simp only [List.contains_iff_mem, before, if_true, ih, List.cons_append, List.mem_cons]
      by_cases same : item = first <;> simp [same, before]
    · have moved : item ∈ first :: seen ∨ item ∈ rest ↔ item ∈ seen ∨ item ∈ first :: rest := by
        rw [List.mem_cons, List.mem_cons, or_assoc, or_left_comm]
      simp only [List.contains_iff_mem, before, if_false, ih, moved]

/-- A check with one problem for each value that occurs before. -/
theorem reported_repetitions [BEq β] [LawfulBEq β] (key : α → β) (write : β → Problem) (check : Nat)
    (items : List α) :
    Reported (fun position problem => ∃ i item, items[i]? = some item ∧
      (key item ∈ (items.take i).map key ∧ position = ⟨check, i, 0⟩ ∧ problem = write (key item)))
      ((repetitions [] (items.map key)).map write) := by
  classical
  refine reported_scan (fun items => (repetitions [] (items.map key)).map write)
    (fun items item => if key item ∈ items.map key then [write (key item)] else [])
    (fun items i item position problem =>
      key item ∈ items.map key ∧ position = ⟨check, i, 0⟩ ∧ problem = write (key item)) rfl
    (fun items item => ?_) (fun items item => reported_if _ _ _) ?_ items
  · rw [List.map_append, List.map_singleton, repetitions_concat, List.map_append]
    by_cases before : key item ∈ items.map key <;> simp [before]
  · rintro earlier i first p e later j second q f less ⟨-, rfl, -⟩ ⟨-, rfl, -⟩
    exact .inr ⟨rfl, .inl less⟩

/-- A check with several problems for one item. -/
theorem reported_flatMap (check : Nat) (next : α → List Problem) (found : Nat → α → Position → Problem → Prop)
    (each : ∀ i item, Reported (found i item) (next item))
    (placed : ∀ i item position problem, found i item position problem → position.check = check ∧ position.item = i)
    (items : List α) :
    Reported (fun position problem => ∃ i item, items[i]? = some item ∧ found i item position problem)
      (items.flatMap next) := by
  refine reported_scan (fun items => items.flatMap next) (fun _ item => next item) (fun _ => found) rfl
    (fun items item => ?_) (fun items item => each items.length item) ?_ items
  · rw [List.flatMap_append, List.flatMap_singleton]
  · intro earlier i first p e later j second q f less here there
    have one := placed i first p e here
    have other := placed j second q f there
    exact .inr ⟨one.1.trans other.1.symm, .inl (by omega)⟩

/-- A report put together from the reports of checks that go one after the other. -/
theorem reported_flatten (lists : List (List Problem))
    (each : ∀ check problems, lists[check]? = some problems →
      Reported (fun position problem => position.check = check ∧ found position problem) problems) :
    Reported (fun position problem => position.check < lists.length ∧ found position problem) lists.flatten := by
  induction lists using List.reverseRecOn with
  | nil => exact reported_nil.congr fun _ _ => iff_of_false (fun below => absurd below.1 (Nat.not_lt_zero _)) id
  | append_singleton lists last ih =>
    rw [List.flatten_append, List.flatten_singleton, List.length_append, List.length_singleton]
    have earlier := ih fun check problems listed =>
      each check problems (by rwa [List.getElem?_append_left (List.getElem?_eq_some_iff.mp listed).1])
    refine (earlier.append (each lists.length last List.getElem?_concat_length) ?_).congr fun position problem => ?_
    · rintro first p second q ⟨below, -⟩ ⟨here, -⟩
      exact .inl (here ▸ below)
    · rw [Nat.lt_succ_iff_lt_or_eq, or_and_right]

abbrev Checked (input : PlanningInput) (check : Nat) (problems : List Problem) : Prop :=
  Reported (fun position problem => position.check = check ∧ Violation input position problem) problems

private theorem noSlots_checked (input : PlanningInput) : Checked input 0 (calendarProblems input.period) := by
  refine (reported_if _ ⟨0, 0, 0⟩ .noSlots).congr fun position problem => ⟨?_, ?_⟩
  · rintro ⟨check, violation⟩
    cases violation with
    | noSlots empty => exact ⟨List.isEmpty_iff.mpr empty, rfl, rfl⟩
    | _ => cases check
  · rintro ⟨empty, rfl, rfl⟩
    exact ⟨rfl, .noSlots (List.isEmpty_iff.mp empty)⟩

private theorem duplicateSlots_checked (input : PlanningInput) : Checked input 1
    ((repetitions [] (input.period.slots.map (·.slot))).map .duplicateSlot) := by
  refine (reported_repetitions _ _ 1 _).congr fun position problem => ⟨?_, ?_⟩
  · rintro ⟨check, violation⟩
    cases violation with
    | duplicateSlot here before => exact ⟨_, _, here, before, rfl, rfl⟩
    | _ => cases check
  · rintro ⟨i, item, here, before, rfl, rfl⟩
    exact ⟨rfl, .duplicateSlot here before⟩

private theorem duplicateExams_checked (input : PlanningInput) : Checked input 2
    ((repetitions [] (input.exams.map (·.ancode))).map .duplicateExam) := by
  refine (reported_repetitions _ _ 2 _).congr fun position problem => ⟨?_, ?_⟩
  · rintro ⟨check, violation⟩
    cases violation with
    | duplicateExam here before => exact ⟨_, _, here, before, rfl, rfl⟩
    | _ => cases check
  · rintro ⟨i, item, here, before, rfl, rfl⟩
    exact ⟨rfl, .duplicateExam here before⟩

private theorem duplicateRooms_checked (input : PlanningInput) : Checked input 3
    ((repetitions [] (input.rooms.map (·.name))).map .duplicateRoom) := by
  refine (reported_repetitions _ _ 3 _).congr fun position problem => ⟨?_, ?_⟩
  · rintro ⟨check, violation⟩
    cases violation with
    | duplicateRoom here before => exact ⟨_, _, here, before, rfl, rfl⟩
    | _ => cases check
  · rintro ⟨i, item, here, before, rfl, rfl⟩
    exact ⟨rfl, .duplicateRoom here before⟩

private theorem duplicateStaff_checked (input : PlanningInput) : Checked input 4
    ((repetitions [] (input.invigilators.map (·.id))).map .duplicateInvigilator) := by
  refine (reported_repetitions _ _ 4 _).congr fun position problem => ⟨?_, ?_⟩
  · rintro ⟨check, violation⟩
    cases violation with
    | duplicateInvigilator here before => exact ⟨_, _, here, before, rfl, rfl⟩
    | _ => cases check
  · rintro ⟨i, item, here, before, rfl, rfl⟩
    exact ⟨rfl, .duplicateInvigilator here before⟩

private theorem slotNumbers_checked (input : PlanningInput) : Checked input 5
    (((input.period.slots.map (·.slot)).filter fun slot => slot.day = 0 || slot.number = 0).map
      .slotNotCountedFromOne) := by
  rw [List.filter_map, List.map_map]
  refine (reported_filter _ _ (⟨5, ·, 0⟩) (fun _ _ less => .inr ⟨rfl, .inl less⟩) _).congr
    fun position problem => ⟨?_, ?_⟩
  · rintro ⟨check, violation⟩
    cases violation with
    | slotNotCountedFromOne here wrong => exact ⟨_, _, here, by simpa using wrong, rfl, rfl⟩
    | _ => cases check
  · rintro ⟨i, item, here, wrong, rfl, rfl⟩
    exact ⟨rfl, .slotNotCountedFromOne here (by simpa using wrong)⟩

private theorem goSlots_checked (input : PlanningInput) : Checked input 6
    ((input.period.goSlots.filter fun slot => !(input.period.slots.map (·.slot)).contains slot).map
      .goSlotUnknown) := by
  refine (reported_filter _ _ (⟨6, ·, 0⟩) (fun _ _ less => .inr ⟨rfl, .inl less⟩) _).congr
    fun position problem => ⟨?_, ?_⟩
  · rintro ⟨check, violation⟩
    cases violation with
    | goSlotUnknown here wrong => exact ⟨_, _, here, by simpa using wrong, rfl, rfl⟩
    | _ => cases check
  · rintro ⟨i, item, here, wrong, rfl, rfl⟩
    exact ⟨rfl, .goSlotUnknown here (by simpa using wrong)⟩

private theorem exams_checked (input : PlanningInput) : Checked input 7 (examProblems input.exams) := by
  have each (i : Nat) (exam : Exam) := Reported.append
    (reported_if (exam.duration = 0) ⟨7, i, 0⟩ (.examWithoutDuration exam.ancode))
    (reported_filter (fun linked => !(input.exams.map (·.ancode)).contains linked) (.linkToUnknownExam exam.ancode)
      (⟨7, i, · + 1⟩) (fun _ _ less => .inr ⟨rfl, .inr ⟨rfl, Nat.succ_lt_succ less⟩⟩) exam.constraints.sameSlot)
    (by
      rintro p e q f ⟨-, rfl, -⟩ ⟨j, linked, -, -, rfl, -⟩
      exact .inr ⟨rfl, .inr ⟨rfl, Nat.succ_pos j⟩⟩)
  refine (reported_flatMap 7 _ _ each ?_ _).congr fun position problem => ⟨?_, ?_⟩
  · rintro i exam position problem (⟨-, rfl, -⟩ | ⟨j, linked, -, -, rfl, -⟩) <;> exact ⟨rfl, rfl⟩
  · rintro ⟨check, violation⟩
    cases violation with
    | examWithoutDuration here none => exact ⟨_, _, here, .inl ⟨none, rfl, rfl⟩⟩
    | linkToUnknownExam here link unknown =>
      exact ⟨_, _, here, .inr ⟨_, _, link, by simpa using unknown, rfl, rfl⟩⟩
    | _ => cases check
  · rintro ⟨i, exam, here, (⟨none, rfl, rfl⟩ | ⟨j, linked, link, unknown, rfl, rfl⟩)⟩
    · exact ⟨rfl, .examWithoutDuration here none⟩
    · exact ⟨rfl, .linkToUnknownExam here link (by simpa using unknown)⟩

private theorem rooms_checked (input : PlanningInput) : Checked input 8
    (roomProblems input.rooms) := by
  refine (reported_filter _ _ (⟨8, ·, 0⟩) (fun _ _ less => .inr ⟨rfl, .inl less⟩) _).congr
    fun position problem => ⟨?_, ?_⟩
  · rintro ⟨check, violation⟩
    cases violation with
    | roomWithoutSeats here wrong => exact ⟨_, _, here, by simpa using wrong, rfl, rfl⟩
    | _ => cases check
  · rintro ⟨i, item, here, wrong, rfl, rfl⟩
    exact ⟨rfl, .roomWithoutSeats here (by simpa using wrong)⟩

private theorem isValidFactor_eq_false {factor : Double} :
    isValidFactor factor = false ↔ factor.isFinite = false ∨ factor < 0 := by
  rw [isValidFactor, Bool.and_eq_false_iff, Bool.not_eq_false', decide_eq_true_eq]

private theorem staff_checked (input : PlanningInput) : Checked input 9
    (staffProblems input.invigilators) := by
  refine (reported_filter _ _ (⟨9, ·, 0⟩) (fun _ _ less => .inr ⟨rfl, .inl less⟩) _).congr
    fun position problem => ⟨?_, ?_⟩
  · rintro ⟨check, violation⟩
    cases violation with
    | invalidFactor here wrong => exact ⟨_, _, here, by simpa [isValidFactor_eq_false] using wrong, rfl, rfl⟩
    | _ => cases check
  · rintro ⟨i, item, here, wrong, rfl, rfl⟩
    exact ⟨rfl, .invalidFactor here (by simpa [isValidFactor_eq_false] using wrong)⟩

private theorem committed_checked (input : PlanningInput) : Checked input 10
    (committedProblems (input.period.slots.map (·.slot)) input.committed) := by
  refine (reported_filter _ _ (⟨10, ·, 0⟩) (fun _ _ less => .inr ⟨rfl, .inl less⟩) _).congr
    fun position problem => ⟨?_, ?_⟩
  · rintro ⟨check, violation⟩
    cases violation with
    | committedToUnknownSlot here wrong => exact ⟨_, _, here, by simpa using wrong, rfl, rfl⟩
    | _ => cases check
  · rintro ⟨i, item, here, wrong, rfl, rfl⟩
    exact ⟨rfl, .committedToUnknownSlot here (by simpa using wrong)⟩

private theorem pinned_checked (input : PlanningInput) : Checked input 11
    (pinnedProblems (input.period.slots.map (·.slot)) (input.exams.map (·.ancode)) input.pinned) := by
  have each (i : Nat) (pin : Seating) := Reported.append
    (reported_if (pin.slot ∉ input.period.slots.map (·.slot)) ⟨11, i, 0⟩
      (.pinnedToUnknownSlot pin.room pin.ancode pin.slot))
    (reported_if (pin.ancode ∉ input.exams.map (·.ancode)) ⟨11, i, 1⟩ (.pinnedForUnknownExam pin.room pin.ancode))
    (by
      rintro p e q f ⟨-, rfl, -⟩ ⟨-, rfl, -⟩
      exact .inr ⟨rfl, .inr ⟨rfl, Nat.one_pos⟩⟩)
  have listed := reported_flatMap 11 _ _ each
    (by rintro i pin position problem (⟨-, rfl, -⟩ | ⟨-, rfl, -⟩) <;> exact ⟨rfl, rfl⟩) input.pinned
  simp only [ite_not] at listed
  simp only [pinnedProblems, List.contains_iff_mem]
  refine listed.congr fun position problem => ⟨?_, ?_⟩
  · rintro ⟨check, violation⟩
    cases violation with
    | pinnedToUnknownSlot here unknown => exact ⟨_, _, here, .inl ⟨unknown, rfl, rfl⟩⟩
    | pinnedForUnknownExam here unknown => exact ⟨_, _, here, .inr ⟨unknown, rfl, rfl⟩⟩
    | _ => cases check
  · rintro ⟨i, pin, here, (⟨unknown, rfl, rfl⟩ | ⟨unknown, rfl, rfl⟩)⟩
    · exact ⟨rfl, .pinnedToUnknownSlot here unknown⟩
    · exact ⟨rfl, .pinnedForUnknownExam here unknown⟩

def checks (input : PlanningInput) : List (List Problem) :=
  let slots := input.period.slots.map (·.slot)
  let ancodes := input.exams.map (·.ancode)
  [calendarProblems input.period,
    (repetitions [] slots).map .duplicateSlot,
    (repetitions [] ancodes).map .duplicateExam,
    (repetitions [] (input.rooms.map (·.name))).map .duplicateRoom,
    (repetitions [] (input.invigilators.map (·.id))).map .duplicateInvigilator,
    (slots.filter fun slot => slot.day = 0 || slot.number = 0).map .slotNotCountedFromOne,
    (input.period.goSlots.filter fun slot => !slots.contains slot).map .goSlotUnknown,
    examProblems input.exams,
    roomProblems input.rooms,
    staffProblems input.invigilators,
    committedProblems slots input.committed,
    pinnedProblems slots ancodes input.pinned]

private theorem problems_eq (input : PlanningInput) : input.problems = (checks input).flatten := by
  simp only [PlanningInput.problems, duplicateProblems, slotProblems, checks, List.flatten_cons, List.flatten_nil,
    List.append_assoc, List.append_nil]

private theorem checks_checked {check : Nat} (listed : (checks input)[check]? = some problems) :
    Checked input check problems := by
  have inside := (List.getElem?_eq_some_iff.mp listed).1
  match check with
  | 0 => exact Option.some.inj listed ▸ noSlots_checked input
  | 1 => exact Option.some.inj listed ▸ duplicateSlots_checked input
  | 2 => exact Option.some.inj listed ▸ duplicateExams_checked input
  | 3 => exact Option.some.inj listed ▸ duplicateRooms_checked input
  | 4 => exact Option.some.inj listed ▸ duplicateStaff_checked input
  | 5 => exact Option.some.inj listed ▸ slotNumbers_checked input
  | 6 => exact Option.some.inj listed ▸ goSlots_checked input
  | 7 => exact Option.some.inj listed ▸ exams_checked input
  | 8 => exact Option.some.inj listed ▸ rooms_checked input
  | 9 => exact Option.some.inj listed ▸ staff_checked input
  | 10 => exact Option.some.inj listed ▸ committed_checked input
  | 11 => exact Option.some.inj listed ▸ pinned_checked input

theorem Violation.listed {position : Position} {problem : Problem} (violation : Violation input position problem) :
    ∃ problems, (checks input)[position.check]? = some problems := by
  cases violation <;> exact ⟨_, rfl⟩

private theorem problems_reported (input : PlanningInput) : Reported (Violation input) input.problems := by
  rw [problems_eq]
  refine (reported_flatten (checks input) fun check problems listed => checks_checked listed).congr
    fun position problem => (and_iff_right_of_imp fun violation => ?_).symm
  obtain ⟨problems, listed⟩ := violation.listed
  exact (List.getElem?_eq_some_iff.mp listed).1

theorem Violation.reported {position : Position} {problem : Problem} (violation : Violation input position problem) :
    problem ∈ input.problems := by
  obtain ⟨report, listed, -, places⟩ := problems_reported input
  rw [← listed]
  exact List.mem_map_of_mem ((places position problem).mpr violation)

private theorem count_flatten_of_only [BEq α] [LawfulBEq α] {lists : List (List α)} {list : List α} {i : Nat}
    {value : α}
    (listed : lists[i]? = some list)
    (only : ∀ j other, lists[j]? = some other → value ∈ other → j = i) :
    lists.flatten.count value = list.count value := by
  induction lists generalizing i with
  | nil => cases listed
  | cons first rest ih =>
    rw [List.flatten_cons, List.count_append]
    cases i with
    | zero =>
      obtain rfl := Option.some.inj listed
      have absent : value ∉ rest.flatten := by
        intro inside
        obtain ⟨other, member, inside⟩ := List.mem_flatten.mp inside
        obtain ⟨j, listed⟩ := List.mem_iff_getElem?.mp member
        exact absurd (only (j + 1) other listed inside) (Nat.succ_ne_zero j)
      rw [List.count_eq_zero_of_not_mem absent, Nat.add_zero]
    | succ i =>
      have absent : value ∉ first := fun inside => absurd (only 0 first rfl inside) (Nat.succ_ne_zero i).symm
      rw [List.count_eq_zero_of_not_mem absent, Nat.zero_add]
      exact ih listed fun j other here inside => Nat.succ.inj (only (j + 1) other here inside)

/-- A problem that one check alone can find stands in the report as often as this check finds it. -/
theorem count_problems {problem : Problem} (listed : (checks input)[check]? = some problems)
    (only : ∀ position, Violation input position problem → position.check = check) :
    input.problems.count problem = problems.count problem := by
  rw [problems_eq]
  refine count_flatten_of_only listed fun other list here inside => ?_
  obtain ⟨report, rfl, -, places⟩ := checks_checked here
  obtain ⟨⟨position, _⟩, member, rfl⟩ := List.mem_map.mp inside
  obtain ⟨rfl, violation⟩ := (places position _).mp member
  exact only position violation

private theorem count_repetitions [BEq α] [LawfulBEq α] (items : List α) (item : α) :
    (repetitions [] items).count item = items.count item - 1 := by
  induction items using List.reverseRecOn with
  | nil => rfl
  | append_singleton items last ih =>
    rw [repetitions_concat, List.count_append, List.count_append, ih]
    by_cases same : last = item
    · subst same
      by_cases before : last ∈ items
      · have occurs := List.count_pos_iff.mpr before
        simp only [List.not_mem_nil, before, or_true, if_true, List.count_singleton_self]
        omega
      · simp [before, List.count_eq_zero_of_not_mem before]
    · have other : List.count item (if last ∈ ([] : List α) ∨ last ∈ items then [last] else []) = 0 := by
        split <;> simp [same]
      rw [other, List.count_singleton, if_neg (by simpa using same), Nat.add_zero, Nat.add_zero]

private theorem decimal_injective : Function.Injective Nat.repr := by
  intro first second same
  have digits := congrArg String.toList same
  rw [Nat.toList_repr, Nat.toList_repr] at digits
  rw [← Nat.ofDigitChars_ten_toDigits (n := first), digits, Nat.ofDigitChars_ten_toDigits]

private theorem not_mem_decimal {sign : Char} (other : sign.isDigit = false) (number : Nat) :
    sign ∉ number.repr.toList := by
  rw [Nat.toList_repr]
  intro inside
  rw [Nat.isDigit_of_mem_toDigits (by decide) (by decide) inside] at other
  cases other

private theorem text_injective : Function.Injective Slot.text := by
  intro first second same
  have signs (slot : Slot) :
      slot.text.toList = ('(' :: slot.day.repr.toList) ++ ',' :: (slot.number.repr.toList ++ [')']) := by
    rw [Slot.text, Nat.toString_eq_repr, Nat.toString_eq_repr]
    simp only [String.toList_append, toString]
    simp
  have separate (number : Nat) : ',' ∉ number.repr.toList := not_mem_decimal rfl number
  have same := congrArg String.toList same
  rw [signs, signs, List.append_cons_inj_of_notMem (by simpa using separate first.day)
    (by simpa using separate first.number)] at same
  obtain ⟨days, -, numbers⟩ := same
  have days := decimal_injective (String.toList_inj.mp (List.cons.inj days).2)
  have numbers := decimal_injective (String.toList_inj.mp (List.append_cancel_right numbers))
  cases first
  cases second
  exact congrArg₂ Slot.mk days numbers

/-- What the later stages rely on. -/
structure WellFormed (input : PlanningInput) : Prop where
  somewhen : input.period.slots ≠ []
  distinctSlots : (input.period.slots.map (·.slot)).Nodup
  distinctExams : (input.exams.map (·.ancode)).Nodup
  distinctRooms : (input.rooms.map (·.name)).Nodup
  distinctStaff : (input.invigilators.map (·.id)).Nodup
  countedFromOne : ∀ slot ∈ input.period.slots.map (·.slot), 1 ≤ slot.day ∧ 1 ≤ slot.number
  knownGoSlots : ∀ slot ∈ input.period.goSlots, slot ∈ input.period.slots.map (·.slot)
  knownLinks : ∀ exam ∈ input.exams, ∀ linked ∈ exam.constraints.sameSlot, linked ∈ input.exams.map (·.ancode)
  durations : ∀ exam ∈ input.exams, 0 < exam.duration
  seats : ∀ room ∈ input.rooms, 0 < room.seats
  factors : ∀ invigilator ∈ input.invigilators, invigilator.factor.isFinite = true ∧ ¬invigilator.factor < 0
  knownCommitments : ∀ placement ∈ input.committed, placement.slot ∈ input.period.slots.map (·.slot)
  knownPinnedSlots : ∀ pin ∈ input.pinned, pin.slot ∈ input.period.slots.map (·.slot)
  knownPinnedExams : ∀ pin ∈ input.pinned, pin.ancode ∈ input.exams.map (·.ancode)

private theorem calendarProblems_eq_nil_iff {period : ExamPeriod} :
    calendarProblems period = [] ↔ period.slots ≠ [] := by
  simp [calendarProblems]

private theorem roomProblems_eq_nil_iff {rooms : List Room} :
    roomProblems rooms = [] ↔ ∀ room ∈ rooms, room.seats ≠ 0 := by
  simp [roomProblems, List.filter_eq_nil_iff]

private theorem isValidFactor_iff {factor : Double} :
    isValidFactor factor = true ↔ factor.isFinite = true ∧ ¬factor < 0 := by
  rw [isValidFactor, Bool.and_eq_true, Bool.not_eq_true', decide_eq_false_iff_not]

private theorem wellFormed_iff : WellFormed input ↔ input.problems = [] := by
  simp only [problems_eq_nil_iff, calendarProblems_eq_nil_iff, duplicateProblems_eq_nil_iff, slotProblems_eq_nil_iff,
    examProblems_eq_nil_iff, roomProblems_eq_nil_iff, staffProblems_eq_nil_iff, committedProblems_eq_nil_iff,
    pinnedProblems_eq_nil_iff, isValidFactor_iff, ← Nat.pos_iff_ne_zero]
  constructor
  · intro formed
    exact ⟨formed.somewhen,
      ⟨formed.distinctSlots, formed.distinctExams, formed.distinctRooms, formed.distinctStaff⟩,
      ⟨formed.countedFromOne, formed.knownGoSlots⟩,
      fun exam member => ⟨formed.durations exam member, formed.knownLinks exam member⟩, formed.seats, formed.factors,
      formed.knownCommitments,
      fun pin member => ⟨formed.knownPinnedSlots pin member, formed.knownPinnedExams pin member⟩⟩
  · rintro ⟨somewhen, ⟨slots, exams, rooms, staff⟩, ⟨fromOne, goSlots⟩, timed, seats, factors, committed, pinned⟩
    exact ⟨somewhen, slots, exams, rooms, staff, fromOne, goSlots, fun exam member => (timed exam member).2,
      fun exam member => (timed exam member).1, seats, factors, committed, fun pin member => (pinned pin member).1,
      fun pin member => (pinned pin member).2⟩

/-- A report with every violation once, in the order of the checks and of the input. -/
structure ExactReport (input : PlanningInput) (report : List (Position × Problem)) : Prop where
  ordered : report.Pairwise (fun first second => first.1.Before second.1)
  exact : ∀ position problem, (position, problem) ∈ report ↔ Violation input position problem
  slots : ∀ slot, (report.map (·.2)).count (.duplicateSlot slot) = (input.period.slots.map (·.slot)).count slot - 1
  exams : ∀ ancode, (report.map (·.2)).count (.duplicateExam ancode) = (input.exams.map (·.ancode)).count ancode - 1
  rooms : ∀ name, (report.map (·.2)).count (.duplicateRoom name) = (input.rooms.map (·.name)).count name - 1
  staff : ∀ id, (report.map (·.2)).count (.duplicateInvigilator id) = (input.invigilators.map (·.id)).count id - 1

/-- A check for repetitions reports a value once less than it occurs. -/
theorem count_repeated [BEq β] [LawfulBEq β] {values : List β} {write : β → Problem} (check : Nat)
    (injective : Function.Injective write)
    (listed : (checks input)[check]? = some ((repetitions [] values).map write))
    (only : ∀ value position, Violation input position (write value) → position.check = check) (value : β) :
    input.problems.count (write value) = values.count value - 1 := by
  rw [count_problems listed (only value), List.count_map_of_injective _ _ injective, count_repetitions]

/-- Slots and codes that are printed alike are the same, so nothing changes when repetitions are looked for among
what is printed. -/
theorem repetitions_map [BEq α] [LawfulBEq α] [BEq β] [LawfulBEq β] {print : α → β}
    (injective : Function.Injective print) (seen items : List α) :
    repetitions (seen.map print) (items.map print) = (repetitions seen items).map print := by
  induction items generalizing seen with
  | nil => rfl
  | cons item rest ih =>
    rw [List.map_cons, repetitions, repetitions]
    have known : (seen.map print).contains (print item) = seen.contains item := by
      simp [injective.eq_iff]
    rw [known, ← List.map_cons, ih, ih]
    cases seen.contains item <;> rfl

private theorem exact_report (input : PlanningInput) :
    ∃ report, ExactReport input report ∧ report.map (·.2) = input.problems := by
  obtain ⟨report, listed, ordered, exact⟩ := problems_reported input
  refine ⟨report, ⟨ordered, exact, ?_, ?_, ?_, ?_⟩, listed⟩ <;> rw [listed]
  · exact count_repeated 1 (fun _ _ => Problem.duplicateSlot.inj) rfl (by rintro _ _ ⟨⟩; rfl)
  · exact count_repeated 2 (fun _ _ => Problem.duplicateExam.inj) rfl (by rintro _ _ ⟨⟩; rfl)
  · exact count_repeated 3 (fun _ _ => Problem.duplicateRoom.inj) rfl (by rintro _ _ ⟨⟩; rfl)
  · exact count_repeated 4 (fun _ _ => Problem.duplicateInvigilator.inj) rfl (by rintro _ _ ⟨⟩; rfl)

private theorem message_invalid (problems : List Problem) : (PlanningError.invalid problems).message =
      "invalid input: " ++ "; ".intercalate (problems.map Problem.message) := by
  unfold PlanningError.message
  rfl

/-- An input passes its checks exactly if it is well-formed. Otherwise the message is one text for each violation, in
the order of the checks and of the input; slots and codes that occur again are those that are printed again. -/
theorem violations_are_reported_once (input : PlanningInput) :
    (validate input = .ok () ↔ WellFormed input) ∧
    (∃ report, ExactReport input report ∧ (report = [] ↔ WellFormed input) ∧
      (¬WellFormed input → validate input = .error (.invalid (report.map (·.2)))) ∧
      (PlanningError.invalid (report.map (·.2))).message =
        "invalid input: " ++ "; ".intercalate (report.map (·.2.message))) ∧
    (∀ slots : List Slot, repetitions [] (slots.map Slot.text) = (repetitions [] slots).map Slot.text) ∧
    ∀ codes : List Ancode, repetitions [] (codes.map toString) = (repetitions [] codes).map toString := by
  refine ⟨validate_ok_iff.trans wellFormed_iff.symm, ?_, fun slots => repetitions_map text_injective [] slots,
    fun codes => repetitions_map decimal_injective [] codes⟩
  obtain ⟨report, exact, listed⟩ := exact_report input
  refine ⟨report, exact, ?_, fun wrong => ?_, ?_⟩
  · rw [wellFormed_iff, ← listed, List.map_eq_nil_iff]
  · rw [listed, validate]
    rw [wellFormed_iff] at wrong
    cases problems : input.problems with
    | nil => exact absurd problems wrong
    | cons first rest => rfl
  · rw [message_invalid, List.map_map]
    rfl

end Timetable.Proofs.ProblemReports
