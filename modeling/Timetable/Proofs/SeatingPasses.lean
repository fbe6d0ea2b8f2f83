import Timetable.Proofs.SeatMoves
import Timetable.Proofs.SeatedStudents

/-! The loop that seats the normal students. A pass takes students out of the most urgent demand and adds
none to any, whatever the rooms are, so the normal students left after the pins bound its passes. -/

namespace Timetable.Proofs.SeatingPasses
open SeatDemands SeatPool SeatingSteps SeatingPhases SeatReasons SeatMoves SlotRounds SeatedStudents Returned

variable {allocator : Allocator} {records : List Accommodation} {pinned : List Seating} {blocked : List Block}
  {slot : Slot} {exams : List Exam} {params : RoomParams} {start before middle after last : Round}
  {demand : Demand} {index count passes : Nat}

def Removes (before after : List Demand) : Prop :=
  ∃ index demand count, before[index]? = some demand ∧ 0 < count ∧ count ≤ demand.normal.length ∧
    after = before.set index (demand.dropNormal count)

private theorem Pass.removes (pass : Pass params before demand index after)
    (present : before.demands[index]? = some demand) (waiting : demand.normal ≠ []) :
    Removes before.demands after.demands := by
  have wanted := List.length_pos_iff.mpr waiting
  cases pass with
  | joined => exact ⟨index, demand, _, present, wanted, Nat.le_refl _, rfl⟩
  | opened _ roomy =>
    exact ⟨index, demand, _, present, Nat.lt_min.mpr ⟨roomy, wanted⟩, Nat.min_le_right .., rfl⟩
  | away => exact ⟨index, demand, _, present, wanted, Nat.le_refl _, rfl⟩

theorem Removes.fewer (removes : Removes before.demands after.demands) : after.normalCount < before.normalCount := by
  obtain ⟨index, demand, count, present, some, enough, same⟩ := removes
  have waiting : demand.normal ≠ [] := List.ne_nil_of_length_pos (Nat.lt_of_lt_of_le some enough)
  rw [Round.normalCount, same]
  exact normals_set present some waiting

/-- So many passes of the loop, without a bound on them. -/
inductive Passes (params : RoomParams) : Round → Nat → Round → Prop where
  | done (round : Round) : Passes params round 0 round
  | next {before middle after : Round} {demand : Demand} {index passes : Nat}
      (urgent : Round.mostUrgent? before.demands = some (demand, index))
      (first : before.seatNormal params demand index = .ok middle) (rest : Passes params middle passes after) :
      Passes params before (passes + 1) after

private theorem sound_pass (sound : Sound before.pool)
    (urgent : Round.mostUrgent? before.demands = some (demand, index))
    (returned : before.seatNormal params demand index = .ok after) : Sound after.pool := by
  obtain ⟨present, waiting⟩ := mostUrgent?_spec urgent
  obtain ⟨entry, step, -⟩ := seatNormal_step sound present waiting returned
  exact step.sound sound

/-- The loop goes on as long as a normal student is left, and then a pass removes one. -/
theorem urgent_removes (params : RoomParams) (sound : Sound before.pool)
    (urgent : Round.mostUrgent? before.demands = some (demand, index)) :
    ∃ after, before.seatNormal params demand index = .ok after ∧ Removes before.demands after.demands := by
  obtain ⟨present, waiting⟩ := mostUrgent?_spec urgent
  obtain ⟨after, returned, pass⟩ := seatNormal_pass params sound demand index
  exact ⟨after, returned, Pass.removes pass present waiting⟩

namespace Passes

/-- What each pass keeps, all of them keep. -/
theorem keeps (kept : Round → Prop)
    (step : ∀ {before after demand index}, Sound before.pool → before.demands[index]? = some demand →
      demand.normal ≠ [] → Round.mostUrgent? before.demands = some (demand, index) →
      Pass params before demand index after → kept before → kept after)
    (sound : Sound before.pool) (run : Passes params before passes after) (start : kept before) : kept after := by
  induction run with
  | done => exact start
  | next urgent first _ ih =>
    obtain ⟨present, waiting⟩ := mostUrgent?_spec urgent
    exact ih (sound_pass sound urgent first)
      (step sound present waiting urgent (.of_returned sound first) start)

theorem sound (run : Passes params before passes after) (kept : Sound before.pool) : Sound after.pool := by
  induction run with
  | done => exact kept
  | next urgent first _ ih => exact ih (sound_pass kept urgent first)

theorem bounded (run : Passes params before passes after) (sound : Sound before.pool) :
    passes + after.normalCount ≤ before.normalCount := by
  induction run with
  | done => omega
  | next urgent first _ ih =>
    obtain ⟨other, returned, removes⟩ := urgent_removes params sound urgent
    obtain rfl := Except.ok.inj (first.symm.trans returned)
    have fewer := removes.fewer
    have rest := ih (sound_pass sound urgent first)
    omega

end Passes

/-- Some number of passes is the last, and every bound that is no less than the students left allows it. -/
theorem exists_last (params : RoomParams) (sound : Sound before.pool) :
    ∃ passes last, Passes params before passes last ∧ Round.mostUrgent? last.demands = none ∧
      ∀ steps, before.normalCount ≤ steps → before.seatNormals params steps = .ok last := by
  induction left : before.normalCount using Nat.strong_induction_on generalizing before with
  | h left ih =>
    cases urgent : Round.mostUrgent? before.demands with
    | none =>
      refine ⟨0, before, .done _, urgent, fun steps _ => ?_⟩
      cases steps with
      | zero => rfl
      | succ steps => rw [Round.seatNormals, urgent]
    | some item =>
      obtain ⟨demand, index⟩ := item
      obtain ⟨middle, returned, removes⟩ := urgent_removes params sound urgent
      have fewer := removes.fewer
      obtain ⟨passes, last, rest, calm, reached⟩ :=
        ih middle.normalCount (left ▸ fewer) (sound_pass sound urgent returned) rfl
      refine ⟨passes + 1, last, .next urgent returned rest, calm, fun steps enough => ?_⟩
      obtain ⟨steps, rfl⟩ := Nat.exists_eq_add_one_of_ne_zero (show steps ≠ 0 by omega)
      rw [Round.seatNormals, urgent]
      exact (ok_bind returned).trans (reached steps (by omega))

/-- The rounds of a slot up to the loop keep its rooms apart. -/
theorem pinned_sound (started : allocator.start records blocked slot exams = .ok start)
    (honoured : (pinned.filter (·.slot = slot)).foldlM (·.pin allocator.params.longDurationThreshold ·) start
      = .ok before) : Sound before.pool := by
  obtain ⟨entries, run, -⟩ := pins_run (start_sound started) (fun pin member => by
    rw [(start_empty started).1]
    exact of_decide_eq_true (List.mem_filter.mp member).2) honoured
  exact run.sound (start_sound started)

/-- Whatever the rooms and the pins are, the loop that seats the normal students ends: as long as one of them
is left a pass returns and removes some from one demand, so there are at most as many passes as students. -/
theorem largest_first_loop_ends (started : allocator.start records blocked slot exams = .ok start)
    (honoured : (pinned.filter (·.slot = slot)).foldlM (·.pin allocator.params.longDurationThreshold ·) start
      = .ok before) :
    (∀ passes round, Passes allocator.params before passes round →
      passes + round.normalCount ≤ before.normalCount ∧
      ∀ demand index, Round.mostUrgent? round.demands = some (demand, index) →
        ∃ after, round.seatNormal allocator.params demand index = .ok after ∧
          Removes round.demands after.demands) ∧
    ∃ passes last, passes ≤ before.normalCount ∧ Passes allocator.params before passes last ∧
      (∀ demand ∈ last.demands, demand.normal = []) ∧
      ∀ steps, before.normalCount ≤ steps → before.seatNormals allocator.params steps = .ok last := by
  have sound := pinned_sound started honoured
  constructor
  · intro passes round run
    exact ⟨run.bounded sound, fun demand index urgent => urgent_removes allocator.params (run.sound sound) urgent⟩
  · obtain ⟨passes, last, run, calm, reached⟩ := exists_last allocator.params sound
    have bounded := run.bounded sound
    exact ⟨passes, last, by omega, run, mostUrgent?_none calm, reached⟩

/-- A room that seats two, and one whose seats are overridden to none. -/
def emptied : Allocator :=
  .ofConfig [twoSeats, { twoSeats with name := "R0" }] { roomOverrides := [("R0", { seats := some 0 })] }

def firstSeat : Seating :=
  { slot := ⟨1, 1⟩, room := "R2", ancode := 1, duration := 90, students := ["a"], accommodated := false,
    reserve := false }

theorem loop_ends_without_seats : ∃ start before,
    emptied.start [] [] ⟨1, 1⟩ [threeRegistrants] = .ok start ∧
    ([firstSeat].filter (·.slot = ⟨1, 1⟩)).foldlM (·.pin emptied.params.longDurationThreshold ·) start = .ok before ∧
    before.normalCount = 2 ∧
    (∀ passes round, Passes emptied.params before passes round →
      passes + round.normalCount ≤ before.normalCount ∧
      ∀ demand index, Round.mostUrgent? round.demands = some (demand, index) →
        ∃ after, round.seatNormal emptied.params demand index = .ok after ∧
          Removes round.demands after.demands) ∧
    ∃ passes last, passes ≤ before.normalCount ∧ Passes emptied.params before passes last ∧
      (∀ demand ∈ last.demands, demand.normal = []) ∧
      ∀ steps, before.normalCount ≤ steps → before.seatNormals emptied.params steps = .ok last := by
  obtain ⟨start, before, started, honoured, left⟩ : ∃ start before,
      emptied.start [] [] ⟨1, 1⟩ [threeRegistrants] = .ok start ∧
      ([firstSeat].filter (·.slot = ⟨1, 1⟩)).foldlM (·.pin emptied.params.longDurationThreshold ·) start = .ok before ∧
      before.normalCount = 2 :=
    ⟨_, _, rfl, rfl, rfl⟩
  exact ⟨start, before, started, honoured, left, largest_first_loop_ends started honoured⟩

end Timetable.Proofs.SeatingPasses
