import Mathlib.Data.List.Perm.Basic
import Timetable.Proofs.ClosedRooms
import Timetable.Proofs.SeatingFrames

/-! Slots that do not interfere. One slot hands nothing to another but the rooms it blocks, and these are
blocked for the slot directly after it on its day. -/

namespace Timetable.Proofs.SlotsApart
open Chronology ClosedRooms SeatingFrames SeatingSteps SlotRounds Returned

variable {allocator : Allocator} {records : List Accommodation} {pinned again : List Seating}
  {blocked others : List Block} {slot last : Slot} {exams : List Exam} {round before after : Round}
  {agenda front back : Agenda Exam} {plan later : RoomPlan} {threshold : Nat} {entry : Seating}
  {entries : List Seating} {place : Place} {block : Block}

private theorem blocks_elsewhere (blocks : Blocks threshold place entry blocked others)
    (elsewhere : entry.slot.next ≠ .ok block.2) : block ∈ others ↔ block ∈ blocked := by
  unfold Blocks at blocks
  split at blocks
  · obtain ⟨next, found, rfl⟩ := blocks
    rw [List.mem_cons, or_iff_right]
    rintro rfl
    exact elsewhere found
  · rw [blocks]

private theorem step_elsewhere (step : Step threshold before entry after) (elsewhere : before.slot.next ≠ .ok block.2) :
    block ∈ after.blocked ↔ block ∈ before.blocked := by
  cases step with
  | seat _ _ slot _ _ blocks => exact blocks_elsewhere blocks (slot ▸ elsewhere)
  | alone _ _ _ slot _ _ blocks => exact blocks_elsewhere blocks (slot ▸ elsewhere)
  | _ => rfl

/-- A slot blocks rooms for the next slot of its day and for no other. -/
theorem run_elsewhere (run : Run threshold before entries after) (elsewhere : before.slot.next ≠ .ok block.2) :
    block ∈ after.blocked ↔ block ∈ before.blocked := by
  induction run with
  | done => rfl
  | next first _ ih => exact (ih (first.slot_eq ▸ elsewhere)).trans (step_elsewhere first elsewhere)

private theorem allocateSlot_elsewhere
    (returned : allocator.allocateSlot records pinned blocked slot exams = .ok round)
    (elsewhere : slot.next ≠ .ok block.2) : block ∈ round.blocked ↔ block ∈ blocked := by
  obtain ⟨start, middle, honoured, entries, seats⟩ := exists_seats returned
  obtain ⟨here, -, -, unchanged⟩ := start_empty seats.started
  rw [run_elsewhere seats.run (here ▸ elsewhere), unchanged]

/-- Of all blocks only those of slots that are still to come matter. -/
theorem allocateFrom_congr
    (same : ∀ slot ∈ agenda.map (·.1), ∀ position, (position, slot) ∈ others ↔ (position, slot) ∈ blocked) :
    allocator.allocateFrom records pinned others agenda = allocator.allocateFrom records pinned blocked agenda := by
  induction agenda generalizing blocked others with
  | nil => rfl
  | cons item rest ih =>
    rw [List.map_cons, List.forall_mem_cons] at same
    obtain ⟨base, first, second⟩ := allocateSlot_onto allocator records pinned item.2 same.1
    rw [Allocator.allocateFrom, Allocator.allocateFrom, first, second, map_bind, map_bind]
    cases base with
    | error fault => rfl
    | ok round =>
      have following : allocator.allocateFrom records pinned (round.blocked ++ others) rest
          = allocator.allocateFrom records pinned (round.blocked ++ blocked) rest :=
        ih fun slot listed position => by rw [List.mem_append, List.mem_append, same.2 slot listed position]
      change (allocator.allocateFrom records pinned (round.blocked ++ others) rest >>= _) = _
      rw [following]
      rfl

private theorem allocateFrom_pins
    (same : ∀ slot ∈ agenda.map (·.1), again.filter (·.slot = slot) = pinned.filter (·.slot = slot)) :
    allocator.allocateFrom records again blocked agenda = allocator.allocateFrom records pinned blocked agenda := by
  induction agenda generalizing blocked with
  | nil => rfl
  | cons item rest ih =>
    rw [List.map_cons, List.forall_mem_cons] at same
    have here : finish allocator again item.1 = finish allocator pinned item.1 := by
      funext round
      simp only [finish, same.1]
    simp only [Allocator.allocateFrom, allocateSlot_eq, here, ih same.2]

/-- Slots that directly follow no earlier one are allocated as if they were the first. -/
theorem allocateFrom_append
    (apart : ∀ slot ∈ front.map (·.1), ∀ later ∈ back.map (·.1), slot.next ≠ .ok later) :
    allocator.allocateFrom records pinned blocked (front ++ back) = do
      let first ← allocator.allocateFrom records pinned blocked front
      let later ← allocator.allocateFrom records pinned blocked back
      return ⟨first.seatings ++ later.seatings, first.shortfalls ++ later.shortfalls⟩ := by
  induction front generalizing blocked with
  | nil =>
    rw [List.nil_append]
    cases allocator.allocateFrom records pinned blocked back <;> rfl
  | cons item rest ih =>
    rw [List.map_cons, List.forall_mem_cons] at apart
    rw [List.cons_append, Allocator.allocateFrom, Allocator.allocateFrom]
    cases first : allocator.allocateSlot records pinned blocked item.1 item.2 with
    | error fault => rfl
    | ok round =>
      have following : allocator.allocateFrom records pinned round.blocked back
          = allocator.allocateFrom records pinned blocked back :=
        allocateFrom_congr fun slot listed position => allocateSlot_elsewhere first (apart.1 slot listed)
      rw [ok_bind rfl, ok_bind rfl, ih apart.2, following]
      cases allocator.allocateFrom records pinned round.blocked rest with
      | error fault => rfl
      | ok middle =>
        cases allocator.allocateFrom records pinned blocked back with
        | error fault => rfl
        | ok later =>
          refine congrArg Except.ok ?_
          simp only [List.append_assoc]

/-- What stands for the first slots of an agenda is what they get without the others. -/
theorem allocateFrom_front
    (returned : allocator.allocateFrom records pinned blocked (front ++ back) = .ok plan) :
    ∃ first, allocator.allocateFrom records pinned blocked front = .ok first ∧ ∃ later : RoomPlan,
      plan = ⟨first.seatings ++ later.seatings, first.shortfalls ++ later.shortfalls⟩ ∧
      (∀ entry ∈ later.seatings, entry.slot ∈ back.map (·.1)) ∧
        ∀ shortfall ∈ later.shortfalls, shortfall.slot ∈ back.map (·.1) := by
  induction front generalizing blocked plan with
  | nil => exact ⟨⟨[], []⟩, rfl, plan, rfl, plan_slots returned⟩
  | cons item rest ih =>
    obtain ⟨round, here, returned⟩ := bind_ok returned
    obtain ⟨following, others, returned⟩ := bind_ok returned
    obtain rfl := pure_ok returned
    obtain ⟨middle, first, later, rfl, slots⟩ := ih others
    refine ⟨_, (ok_bind here).trans (ok_bind first), later, ?_, slots⟩
    simp only [List.append_assoc]

/-- The allocation of an agenda into one plan, in which an entry may be merged with any other. -/
def allocateInto (allocator : Allocator) (records : List Accommodation) (pinned : List Seating) (plan : RoomPlan)
    (blocked : List Block) : Agenda Exam → Except Fault RoomPlan
  | [] => .ok plan
  | (slot, exams) :: rest => do
    let start ← allocator.start records blocked slot exams
    let round ← finish allocator pinned slot
      { start with seatings := plan.seatings, shortfalls := plan.shortfalls }
    allocateInto allocator records pinned ⟨round.seatings, round.shortfalls⟩ round.blocked rest

private theorem onto_seatings (blocked : List Block) (apart : ∀ entry ∈ plan.seatings, entry.slot ≠ round.slot) :
    (onto plan blocked round).seatings = plan.seatings ++ round.seatings := by
  have others : plan.seatings.filter (·.slot ≠ round.slot) = plan.seatings :=
    List.filter_eq_self.mpr fun entry member => by simpa using apart entry member
  rw [onto, others]

private theorem start_onto (apart : ∀ entry ∈ plan.seatings, entry.slot ≠ slot) {start : Round}
    (started : allocator.start records blocked slot exams = .ok start) :
    { start with seatings := plan.seatings, shortfalls := plan.shortfalls } = onto plan [] start := by
  obtain ⟨rfl, seatings, shortfalls, -⟩ := start_empty started
  have front := onto_seatings [] apart
  rw [seatings, List.append_nil] at front
  rw [← front, onto, shortfalls, List.append_nil, List.append_nil]

/-- Entries of different slots are never merged, so one plan for all slots is made of plans for each. -/
theorem allocateInto_eq (slots : (agenda.map (·.1)).Nodup)
    (apart : ∀ entry ∈ plan.seatings, entry.slot ∉ agenda.map (·.1)) :
    allocateInto allocator records pinned plan blocked agenda
      = (allocator.allocateFrom records pinned blocked agenda).map fun later =>
          ⟨plan.seatings ++ later.seatings, plan.shortfalls ++ later.shortfalls⟩ := by
  induction agenda generalizing blocked plan with
  | nil => simp [allocateInto, Allocator.allocateFrom, Except.map]
  | cons item rest ih =>
    rw [List.map_cons, List.nodup_cons] at slots
    have here : ∀ entry ∈ plan.seatings, entry.slot ≠ item.1 :=
      fun entry member same => apart entry member (same ▸ List.mem_cons_self)
    rw [allocateInto, Allocator.allocateFrom, allocateSlot_eq]
    cases started : allocator.start records blocked item.1 item.2 with
    | error fault => rfl
    | ok start =>
      rw [ok_bind rfl, ok_bind rfl, start_onto here started, finish_onto, map_bind]
      cases first : finish allocator pinned item.1 start with
      | error fault => rfl
      | ok round =>
        obtain ⟨_, _, _, _, seats⟩ := exists_seats ((ok_bind started).trans first)
        have slot := seats.round_slot
        have seatings := onto_seatings [] (slot ▸ here)
        have later : ∀ entry ∈ plan.seatings ++ round.seatings, entry.slot ∉ rest.map (·.1) := by
          intro entry member listed
          rcases List.mem_append.mp member with member | member
          · exact apart entry member (List.mem_cons_of_mem _ listed)
          · exact slots.1 (seats.seating_slots entry member ▸ listed)
        have blocks : (onto plan [] round).blocked = round.blocked := List.append_nil _
        have shortfalls : (onto plan [] round).shortfalls = plan.shortfalls ++ round.shortfalls := rfl
        rw [ok_bind rfl, ok_bind rfl, seatings, blocks, shortfalls, ih slots.2 later]
        cases allocator.allocateFrom records pinned round.blocked rest with
        | error fault => rfl
        | ok following =>
          refine congrArg Except.ok ?_
          simp only [List.append_assoc]

def onDay (agenda : Agenda Exam) (day : Nat) : Agenda Exam := agenda.filter (·.1.day = day)

def joined (plans : List RoomPlan) : RoomPlan := ⟨plans.flatMap (·.seatings), plans.flatMap (·.shortfalls)⟩

private theorem day_of_onDay {day : Nat} (listed : slot ∈ (onDay agenda day).map (·.1)) : slot.day = day := by
  obtain ⟨item, present, rfl⟩ := List.mem_map.mp listed
  exact of_decide_eq_true (List.mem_filter.mp present).2

private theorem allocateFrom_days {days : List Nat} (distinct : days.Nodup) :
    allocator.allocateFrom records pinned blocked (days.flatMap (onDay agenda))
      = (days.mapM fun day => allocator.allocateFrom records pinned blocked (onDay agenda day)).map joined := by
  induction days with
  | nil => rfl
  | cons day rest ih =>
    rw [List.nodup_cons] at distinct
    have apart : ∀ slot ∈ (onDay agenda day).map (·.1), ∀ later ∈ (rest.flatMap (onDay agenda)).map (·.1),
        slot.next ≠ .ok later := by
      intro slot here later there follows
      obtain ⟨item, listed, rfl⟩ := List.mem_map.mp there
      obtain ⟨other, inside, listed⟩ := List.mem_flatMap.mp listed
      have same : item.1.day = slot.day := by rw [(next_iff.mp follows).2]
      rw [day_of_onDay here, day_of_onDay (List.mem_map_of_mem listed)] at same
      exact distinct.1 (same ▸ inside)
    rw [List.flatMap_cons, allocateFrom_append apart, ih distinct.2, List.mapM_cons]
    cases allocator.allocateFrom records pinned blocked (onDay agenda day) with
    | error fault => rfl
    | ok first =>
      cases rest.mapM fun day => allocator.allocateFrom records pinned blocked (onDay agenda day) <;> rfl

private theorem days_together (chronological : Chronological agenda) :
    (ascending (agenda.map (·.1.day))).flatMap (onDay agenda) = agenda := by
  have again : Chronological ((ascending (agenda.map (·.1.day))).flatMap (onDay agenda)) := by
    rw [Chronological, List.pairwise_map, List.pairwise_flatMap]
    refine ⟨fun day _ => List.pairwise_map.mp (chronological.filter _), (Ordering.ascending_sorted _).imp ?_⟩
    intro day other before first here second there
    rw [← day_of_onDay (List.mem_map_of_mem here), ← day_of_onDay (List.mem_map_of_mem there)] at before
    exact .inl before
  refine again.eq_of_perm chronological ?_
  apply Lookups.flatMap_filter_perm ((Ordering.ascending_sorted _).imp Nat.ne_of_lt)
  intro item listed
  exact Ordering.mem_ascending.mpr (List.mem_map_of_mem listed)

/-- An agenda up to a slot, and the rest of it. -/
theorem front_back (chronological : Chronological agenda) (last : Slot) :
    (agenda.filter (·.1.isAtMost last)) ++ agenda.filter (!·.1.isAtMost last) = agenda := by
  refine Chronological.eq_of_perm ?_ chronological (List.filter_append_perm _ agenda)
  rw [Chronological, List.map_append, List.pairwise_append]
  refine ⟨chronological.filter _, chronological.filter _, fun slot early later late => ?_⟩
  obtain ⟨item, here, rfl⟩ := List.mem_map.mp early
  obtain ⟨other, there, rfl⟩ := List.mem_map.mp late
  have within := (List.mem_filter.mp here).2
  have beyond := (List.mem_filter.mp there).2
  rw [Bool.not_eq_true', Bool.eq_false_iff, ne_eq, isAtMost_iff] at beyond
  rw [isAtMost_iff] at within
  unfold Precedes
  omega

private theorem front_slot (listed : slot ∈ (agenda.filter (·.1.isAtMost last)).map (·.1)) :
    slot.isAtMost last = true := by
  obtain ⟨item, present, rfl⟩ := List.mem_map.mp listed
  exact (List.mem_filter.mp present).2

private theorem back_slot (listed : slot ∈ (agenda.filter (!·.1.isAtMost last)).map (·.1)) :
    ¬ slot.isAtMost last = true := by
  obtain ⟨item, present, rfl⟩ := List.mem_map.mp listed
  simpa using (List.mem_filter.mp present).2

/-- Up to a slot a plan is what its agenda asks for up to that slot. -/
theorem plan_front (chronological : Chronological agenda)
    (returned : allocator.allocate agenda records pinned = .ok plan) (last : Slot) :
    allocator.allocate (agenda.filter (·.1.isAtMost last)) records pinned
      = .ok ⟨plan.seatings.filter (·.slot.isAtMost last), plan.shortfalls.filter (·.slot.isAtMost last)⟩ := by
  rw [← front_back chronological last] at returned
  obtain ⟨first, allocated, later, rfl, seatings, shortfalls⟩ := allocateFrom_front returned
  have own := plan_slots allocated
  rw [filter_front (fun entry member => front_slot (own.1 entry member))
      (fun entry member => back_slot (seatings entry member)),
    filter_front (fun shortfall member => front_slot (own.2 shortfall member))
      (fun shortfall member => back_slot (shortfalls shortfall member))]
  exact allocated

/-- Though all slots may write into one plan, it is made day by day, and up to a slot it does not depend on
what comes after. -/
theorem days_and_later_slots_do_not_interfere (allocator : Allocator) (records : List Accommodation)
    (pinned : List Seating) (chronological : Chronological agenda) :
    allocateInto allocator records pinned ⟨[], []⟩ [] agenda = allocator.allocate agenda records pinned ∧
      allocator.allocate agenda records pinned
        = ((ascending (agenda.map (·.1.day))).mapM fun day =>
            allocator.allocate (onDay agenda day) records pinned).map joined ∧
      ∀ (last : Slot) (other : Agenda Exam) (again : List Seating), Chronological other →
        other.filter (·.1.isAtMost last) = agenda.filter (·.1.isAtMost last) →
        (∀ slot, slot.isAtMost last = true → again.filter (·.slot = slot) = pinned.filter (·.slot = slot)) →
        ∀ plan changed, allocator.allocate agenda records pinned = .ok plan →
          allocator.allocate other records again = .ok changed →
          changed.seatings.filter (·.slot.isAtMost last) = plan.seatings.filter (·.slot.isAtMost last) ∧
            changed.shortfalls.filter (·.slot.isAtMost last) = plan.shortfalls.filter (·.slot.isAtMost last) := by
  refine ⟨?_, ?_, ?_⟩
  · rw [allocateInto_eq chronological.slots (by simp), Allocator.allocate]
    cases allocator.allocateFrom records pinned [] agenda <;> rfl
  · have days := Ordering.ascending_sorted (agenda.map (·.1.day))
    conv_lhs => rw [← days_together chronological]
    exact allocateFrom_days (days.imp Nat.ne_of_lt)
  · intro last other again sorted exams pins plan changed first second
    have early := plan_front chronological first last
    have late := plan_front sorted second last
    rw [exams, Allocator.allocate, allocateFrom_pins fun slot listed => pins slot (front_slot listed)] at late
    have same := Except.ok.inj (late.symm.trans early)
    rw [RoomPlan.mk.injEq] at same
    exact same

def twoDays : Agenda Exam := oneAfterAnother ++ [(⟨2, 1⟩, [examOf 3 "c"])]

def changedLater : Agenda Exam := [(⟨1, 1⟩, [examOf 1 "a"]), (⟨1, 3⟩, [examOf 2 "b", examOf 3 "c"])]

def latePin : Seating :=
  { slot := ⟨1, 3⟩, room := "R1", ancode := 2, duration := 90, students := ["b"], accommodated := false,
    reserve := false }

theorem two_days_apart :
    let allocator := Allocator.ofConfig [plainRoom "R1" 1, plainRoom "R2" 2] {}
    let records : List Accommodation := [⟨"a", 50, false⟩, ⟨"b", 50, false⟩]
    allocateInto allocator records [] ⟨[], []⟩ [] twoDays = allocator.allocate twoDays records [] ∧
      allocator.allocate twoDays records []
        = ((ascending (twoDays.map (·.1.day))).mapM fun day => allocator.allocate (onDay twoDays day) records []).map
            joined ∧
      ∃ plan changed, allocator.allocate twoDays records [] = .ok plan ∧
        allocator.allocate changedLater records [latePin] = .ok changed ∧
        changed.seatings.filter (·.slot.isAtMost ⟨1, 1⟩) = plan.seatings.filter (·.slot.isAtMost ⟨1, 1⟩) ∧
          changed.shortfalls.filter (·.slot.isAtMost ⟨1, 1⟩) = plan.shortfalls.filter (·.slot.isAtMost ⟨1, 1⟩) := by
  intro allocator records
  have chronological : Chronological twoDays := by decide
  obtain ⟨shared, days, apart⟩ := days_and_later_slots_do_not_interfere allocator records [] chronological
  have pins : ∀ slot : Slot, slot.isAtMost ⟨1, 1⟩ = true →
      [latePin].filter (·.slot = slot) = ([] : List Seating).filter (·.slot = slot) := by
    intro slot within
    rw [List.filter_nil, List.filter_eq_nil_iff]
    rintro pin member same
    obtain rfl := List.mem_singleton.mp member
    rw [← of_decide_eq_true same] at within
    cases within
  obtain ⟨plan, first⟩ : ∃ plan, allocator.allocate twoDays records [] = .ok plan := ⟨_, rfl⟩
  obtain ⟨changed, second⟩ : ∃ plan, allocator.allocate changedLater records [latePin] = .ok plan := ⟨_, rfl⟩
  exact ⟨shared, days, plan, changed, first, second,
    apart ⟨1, 1⟩ changedLater [latePin] (by decide) (by decide) pins plan changed first second⟩

end Timetable.Proofs.SlotsApart
