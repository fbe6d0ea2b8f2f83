import Timetable.Proofs.SeatedStudents

/-! Pins that name students next to pins that are filled. A registrant sits once unless they are named
after they may have been drawn; until then they either wait in the demand or are noted already. -/

namespace Timetable.Proofs.PinnedStudents
open SeatDemands SeatEntries SeatingSteps SeatingPhases SlotRounds SeatedStudents Returned

variable {allocator : Allocator} {records : List Accommodation} {pinned pins : List Seating}
  {blocked : List Block} {slot : Slot} {exams : List Exam} {exam : Exam} {agenda : Agenda Exam}
  {plan : RoomPlan} {before after start : Round} {pin : Seating} {student : StudentId} {ancode : Ancode}
  {threshold seats : Nat} {demand : Demand}

def IsFilled (pin : Seating) : Prop :=
  pin.students = [] ∧ pin.accommodated = false ∧ pin.reserve = false

instance (pin : Seating) : Decidable (IsFilled pin) := inferInstanceAs (Decidable (_ ∧ _ ∧ _))

/-- The pins of an exam claim a student at most once, and while the student is still to be had. -/
structure Agrees (records : List Accommodation) (student : StudentId) (pins : List Seating) : Prop where
  once : (pins.flatMap (·.students)).count student ≤ 1
  reserves : ∀ pin ∈ pins, pin.reserve = true → student ∉ pin.students
  ahead : pins.Pairwise fun filled named =>
    IsFilled filled → student ∈ named.students → Grant.of records student ≠ .nothing

structure Tallied (records : List Accommodation) (ancode : Ancode) (student : StudentId) (round : Round) :
    Prop where
  ancodes : (round.demands.map (·.exam.ancode)).Nodup
  normals : ∀ demand ∈ round.demands, ∀ other ∈ demand.normal, Grant.of records other = .nothing
  once : (studentsOf (ofExam ancode) round.seatings).count student
    + (remaining ancode round.demands).count student = 1

theorem drawn_filled (filled : IsFilled pin) :
    drawn demand pin seats = (demand.firstNormal seats, demand.dropNormal seats) := by
  obtain ⟨empty, normal, -⟩ := filled
  simp [drawn, empty, normal]

theorem drawn_named (plain : pin.reserve = false) (named : ¬ IsFilled pin) :
    drawn demand pin seats = (pin.students.take seats, demand.without (pin.students.take seats)) := by
  unfold drawn
  split
  next filled =>
    simp only [Bool.and_eq_true, List.isEmpty_iff, Bool.not_eq_true'] at filled
    exact absurd ⟨filled.1, filled.2, plain⟩ named
  next => rfl

private theorem drawn_normal {other : StudentId} (normal : other ∈ (drawn demand pin seats).2.normal) :
    other ∈ demand.normal := by
  unfold drawn at normal
  split at normal
  next => exact List.mem_of_mem_drop normal
  next => exact (List.mem_filter.mp normal).1

/-- Whoever a pin seats leaves the demand. -/
theorem drawn_count (plain : pin.reserve = false) (once : pin.students.count student ≤ 1)
    (waiting : student ∈ pin.students → (pending demand).count student = 1) :
    (drawn demand pin seats).1.count student + (pending (drawn demand pin seats).2).count student
      = (pending demand).count student := by
  by_cases filled : IsFilled pin
  · rw [drawn_filled filled, pending_drop demand seats, List.count_append]
  · rw [drawn_named plain filled]
    by_cases taken : student ∈ pin.students.take seats
    · have single : (pin.students.take seats).count student = 1 := by
        have atMost := (List.take_sublist seats pin.students).count_le student
        have positive := List.count_pos_iff.mpr taken
        omega
      have gone : student ∉ pending (demand.without (pin.students.take seats)) := fun left =>
        ((mem_pending_without _ _).mp left).2 taken
      rw [single, List.count_eq_zero_of_not_mem gone, waiting (List.mem_of_mem_take taken)]
    · rw [List.count_eq_zero_of_not_mem taken, pending_without, List.count_filter (by simpa using taken),
        Nat.zero_add]

private theorem drawn_waits (plain : pin.reserve = false) (unnamed : student ∉ pin.students)
    (normals : ∀ other ∈ demand.normal, Grant.of records other = .nothing)
    (granted : IsFilled pin → Grant.of records student ≠ .nothing) (waiting : student ∈ pending demand) :
    student ∈ pending (drawn demand pin seats).2 := by
  by_cases filled : IsFilled pin
  · rw [drawn_filled filled]
    rw [pending_drop demand seats, List.mem_append] at waiting
    cases waiting with
    | inl drawn => exact absurd (normals student (List.mem_of_mem_take drawn)) (granted filled)
    | inr left => exact left
  · rw [drawn_named plain filled]
    exact (mem_pending_without _ _).mpr ⟨waiting, fun taken => unnamed (List.mem_of_mem_take taken)⟩

inductive Effect (before : Round) (pin : Seating) (after : Round) : Prop where
  | skipped (same : after = before)
  | echoed (reserved : pin.reserve = true) (demands : after.demands = before.demands)
      (seatings : after.seatings = before.seatings ++ [pin])
  | seated {demand : Demand} {index seats : Nat} (plain : pin.reserve = false)
      (present : before.demands[index]? = some demand) (exam : demand.exam.ancode = pin.ancode)
      (demands : after.demands = before.demands.set index (drawn demand pin seats).2)
      (students : ∀ ancode, (studentsOf (ofExam ancode) after.seatings).Perm
        (studentsOf (ofExam ancode) before.seatings
          ++ if pin.ancode = ancode then (drawn demand pin seats).1 else []))

theorem pin_effect (returned : before.pin threshold pin = .ok after) : Effect before pin after := by
  rcases pin_cases returned with ⟨same, -⟩ | ⟨demand, index, place, pool, present, exam, -, done⟩
  · exact .skipped same
  · rcases done with ⟨reserved, rfl⟩ | ⟨plain, returned⟩
    · exact .echoed reserved rfl rfl
    · rw [pinStudents_eq] at returned
      obtain ⟨blocked, -, rfl⟩ := seat_ok returned
      refine .seated plain present exam rfl fun ancode => ?_
      refine (studentsOf_merge (fun _ => rfl) rfl _).trans (.append_left _ (.of_eq ?_))
      split
      next same => exact studentsOf_chosen (decide_eq_true same)
      next other => exact studentsOf_other (decide_eq_false other)

namespace Effect
variable (effect : Effect before pin after) (tallied : Tallied records ancode student before)
include effect tallied

theorem ancodes : (after.demands.map (·.exam.ancode)).Nodup := by
  cases effect with
  | skipped same => exact same ▸ tallied.ancodes
  | echoed _ demands => exact demands ▸ tallied.ancodes
  | @seated demand index seats _ present _ demands =>
    rw [demands, ancodes_set present (drawn_spec demand pin seats).1]
    exact tallied.ancodes

theorem normals : ∀ demand ∈ after.demands, ∀ other ∈ demand.normal, Grant.of records other = .nothing := by
  cases effect with
  | skipped same => exact same ▸ tallied.normals
  | echoed _ demands => exact demands ▸ tallied.normals
  | seated _ present _ demands =>
    rw [demands]
    intro demand member other normal
    cases List.mem_or_eq_of_mem_set member with
    | inl kept => exact tallied.normals demand kept other normal
    | inr changed =>
      rw [changed] at normal
      exact tallied.normals _ (List.mem_of_getElem? present) other (drawn_normal normal)

/-- A pin of another exam leaves the student alone; one of the exam moves them or leaves them. -/
theorem tallies (once : pin.ancode = ancode → pin.students.count student ≤ 1)
    (reserves : pin.ancode = ancode → pin.reserve = true → student ∉ pin.students)
    (waiting : pin.ancode = ancode → student ∈ pin.students → student ∈ remaining ancode before.demands) :
    Tallied records ancode student after := by
  refine ⟨effect.ancodes tallied, effect.normals tallied, ?_⟩
  cases effect with
  | skipped same => exact same ▸ tallied.once
  | echoed reserved demands seatings =>
    have silent : (studentsOf (ofExam ancode) [pin]).count student = 0 := by
      apply List.count_eq_zero_of_not_mem
      intro noted
      obtain ⟨entry, member, same, named⟩ := mem_studentsOf.mp noted
      rw [List.mem_singleton.mp member] at same named
      exact reserves (of_decide_eq_true same) reserved named
    rw [demands, seatings, studentsOf_append, List.count_append, silent, Nat.add_zero]
    exact tallied.once
  | @seated demand index seats plain present exam demands students =>
    have spec := (drawn_spec demand pin seats).1
    rw [(students ancode).count_eq, demands]
    by_cases here : pin.ancode = ancode
    · obtain rfl := exam.trans here
      have total := tallied.once
      rw [remaining_eq tallied.ancodes (List.mem_of_getElem? present)] at total waiting
      have single (named : student ∈ pin.students) : (pending demand).count student = 1 := by
        have positive := List.count_pos_iff.mpr (waiting here named)
        omega
      have moved := @drawn_count _ _ seats _ plain (once here) single
      rw [if_pos here, List.count_append, remaining_set_own tallied.ancodes present spec]
      omega
    · rw [if_neg here, List.append_nil, remaining_set_other present spec (exam ▸ here)]
      exact tallied.once

theorem waits (waiting : student ∈ remaining ancode before.demands)
    (unnamed : pin.ancode = ancode → student ∉ pin.students)
    (granted : pin.ancode = ancode → IsFilled pin → Grant.of records student ≠ .nothing) :
    student ∈ remaining ancode after.demands := by
  cases effect with
  | skipped same => exact same ▸ waiting
  | echoed _ demands => exact demands ▸ waiting
  | @seated demand index seats plain present exam demands =>
    have spec := (drawn_spec demand pin seats).1
    rw [demands]
    by_cases here : pin.ancode = ancode
    · obtain rfl := exam.trans here
      have listed := List.mem_of_getElem? present
      rw [remaining_eq tallied.ancodes listed] at waiting
      rw [remaining_set_own tallied.ancodes present spec]
      exact drawn_waits plain (unnamed here) (tallied.normals demand listed) (granted here) waiting
    · rwa [remaining_set_other present spec (exam ▸ here)]

end Effect

/-- By induction on the pins: whoever a later pin names is neither named nor drawn by the first one, and
so is still there. -/
theorem pins_tallied (tallied : Tallied records ancode student before)
    (agrees : Agrees records student (pins.filter (ofExam ancode)))
    (waiting : ∀ pin ∈ pins.filter (ofExam ancode), student ∈ pin.students →
      student ∈ remaining ancode before.demands)
    (returned : pins.foldlM (·.pin threshold ·) before = .ok after) :
    Tallied records ancode student after := by
  induction pins generalizing before with
  | nil =>
    cases pure_ok returned
    exact tallied
  | cons pin rest ih =>
    rw [List.foldlM_cons] at returned
    obtain ⟨middle, first, returned⟩ := bind_ok returned
    have effect := pin_effect first
    by_cases here : pin.ancode = ancode
    · have chosen : ofExam ancode pin = true := decide_eq_true here
      rw [List.filter_cons_of_pos chosen] at agrees waiting
      obtain ⟨once, reserves, ahead⟩ := agrees
      rw [List.flatMap_cons, List.count_append] at once
      rw [List.forall_mem_cons] at reserves
      rw [List.pairwise_cons] at ahead
      have next := effect.tallies tallied (fun _ => by omega) (fun _ => reserves.1)
        fun _ => waiting pin List.mem_cons_self
      refine ih next ⟨by omega, reserves.2, ahead.2⟩ ?_ returned
      intro later member named
      have present := waiting later (List.mem_cons_of_mem _ member) named
      refine effect.waits tallied present (fun _ twice => ?_) fun _ filled => ahead.1 later member filled named
      have one := List.count_pos_iff.mpr twice
      have other : student ∈ (rest.filter (ofExam ancode)).flatMap (·.students) :=
        List.mem_flatMap.mpr ⟨later, member, named⟩
      have again := List.count_pos_iff.mpr other
      omega
    · have other : ¬ ofExam ancode pin = true := fun chosen => here (of_decide_eq_true chosen)
      rw [List.filter_cons_of_neg other] at agrees waiting
      have next := effect.tallies tallied (absurd · here) (absurd · here) (absurd · here)
      refine ih next agrees ?_ returned
      intro later member named
      exact effect.waits tallied (waiting later member named) (absurd · here) (absurd · here)

private theorem start_normals (started : allocator.start records blocked slot exams = .ok start) :
    ∀ demand ∈ start.demands, ∀ other ∈ demand.normal, Grant.of records other = .nothing := by
  intro demand member other normal
  rw [start_normal started member] at normal
  exact of_decide_eq_true (List.mem_filter.mp normal).2

/-- A registrant sits once in the slot of the exam if its pins claim them at most once, in no reserve,
and not after a pin that has taken normal students, of which they are one. -/
theorem registrants_sit_once {rooms : List Room} {config : Config} (slots : (agenda.map (·.1)).Nodup)
    (distinct : ∀ item ∈ agenda, (item.2.map (·.ancode)).Nodup)
    (returned : (Allocator.ofConfig rooms config).allocate agenda records pinned = .ok plan)
    (listed : (slot, exams) ∈ agenda) (member : exam ∈ exams) (registered : student ∈ exam.registrants)
    (agrees : Agrees records student (pinned.filter (inSlot slot exam.ancode))) :
    (studentsOf (inSlot slot exam.ancode) plan.seatings).count student = 1 := by
  obtain ⟨blocked, round, allocated, seatings, -⟩ := exists_round slots returned listed
  obtain ⟨start, started, -⟩ := bind_ok allocated
  obtain ⟨honoured, middle, entries, pins, first, honours, second, fills⟩ :=
    allocateSlot_run started (start_sound started) (start_empty started).1 allocated
  have opening := remaining_start ⟨started, first, honours, second, fills⟩ (distinct _ listed) member
  have chosen : pinned.filter (inSlot slot exam.ancode)
      = (pinned.filter (·.slot = slot)).filter (ofExam exam.ancode) := by
    rw [List.filter_filter]
    exact List.filter_congr fun pin _ => inSlot_slot exam.ancode pin
  have tallied : Tallied records exam.ancode student start := by
    refine ⟨?_, start_normals started, ?_⟩
    · have ancodes := distinct _ listed
      rw [← start_exams started, List.map_map] at ancodes
      exact ancodes
    · rw [(start_empty started).2.1, opening.count_eq, studentsOf_nil, List.count_nil, Nat.zero_add]
      exact List.count_eq_one_of_mem (Ordering.eraseDups_nodup _) registered
  have settled := pins_tallied tallied (chosen ▸ agrees)
    (fun _ _ _ => opening.mem_iff.mpr registered) pins
  rw [studentsOf_slot (inSlot_slot exam.ancode), seatings, (second.students fun _ => rfl).count_eq,
    List.count_append, ← (fills.students exam.ancode).count_eq]
  exact settled.once

def twoRooms : List Room :=
  ["R1", "R2"].map fun name =>
    { name, seats := 1, lab := false, restrictedSoftware := false, sockets := false, accessible := false }

def twoRegistrants : Exam :=
  { ancode := 1, title := "", examiner := "prof", duration := 90, category := .regular,
    registrations := [⟨"IF", ["a", "b"]⟩], constraints := {} }

def filledPin : Seating := ⟨⟨1, 1⟩, "R1", 1, 90, [], false, false⟩

def namedPin : Seating := ⟨⟨1, 1⟩, "R2", 1, 90, ["a"], false, false⟩

theorem named_before_filled :
    ∃ plan, (Allocator.ofConfig twoRooms {}).allocate [(⟨1, 1⟩, [twoRegistrants])] []
        [namedPin, filledPin] = .ok plan ∧
      (studentsOf (inSlot ⟨1, 1⟩ 1) plan.seatings).count "a" = 1 ∧
      (studentsOf (inSlot ⟨1, 1⟩ 1) plan.seatings).count "b" = 1 := by
  obtain ⟨plan, returned⟩ : ∃ plan, (Allocator.ofConfig twoRooms {}).allocate
      [(⟨1, 1⟩, [twoRegistrants])] [] [namedPin, filledPin] = .ok plan := ⟨_, rfl⟩
  have slots : ([((⟨1, 1⟩ : Slot), [twoRegistrants])].map (·.1)).Nodup := by decide
  have distinct : ∀ item ∈ [((⟨1, 1⟩ : Slot), [twoRegistrants])], (item.2.map (·.ancode)).Nodup := by
    decide
  refine ⟨plan, returned, ?_, ?_⟩
  · exact registrants_sit_once slots distinct returned List.mem_cons_self
      (List.mem_singleton_self twoRegistrants) (by decide) ⟨by decide, by decide, by decide⟩
  · exact registrants_sit_once slots distinct returned List.mem_cons_self
      (List.mem_singleton_self twoRegistrants) (by decide) ⟨by decide, by decide, by decide⟩

/-- The pins name a registrant, and name them once; still the student is drawn into the first room and
seated in the second one again, and the other registrant finds no seat. -/
theorem drawn_before_named :
    (∀ student ∈ namedPin.students, student ∈ twoRegistrants.registrants) ∧
    ([filledPin, namedPin].flatMap (·.students)).Nodup ∧
    ∃ plan, (Allocator.ofConfig twoRooms {}).allocate [(⟨1, 1⟩, [twoRegistrants])] []
        [filledPin, namedPin] = .ok plan ∧
      (studentsOf (inSlot ⟨1, 1⟩ 1) plan.seatings).count "a" = 2 :=
  ⟨by decide, by decide, _, rfl, by decide⟩

end Timetable.Proofs.PinnedStudents
