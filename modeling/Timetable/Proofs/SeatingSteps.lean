import Timetable.Proofs.SeatDemands
import Timetable.Proofs.SeatEntries
import Timetable.Proofs.SeatPool

/-! One slot is seated by a run of steps, each of which notes one entry. What all steps keep is
shown once for runs; the phases of a slot only have to be runs. -/

namespace Timetable.Proofs.SeatingSteps
open SeatEntries SeatPool Returned

/-- The rooms blocked after an entry: a long accommodated sitting blocks its room for the next slot. -/
def Blocks (threshold : Nat) (place : Place) (entry : Seating) (before after : List Block) : Prop :=
  if entry.accommodated ∧ threshold < entry.duration then
    ∃ next, entry.slot.next = .ok next ∧ after = (place.position, next) :: before
  else after = before

/-- The entry a step notes, and the round it leaves. The demands are free to change: how they do is
said phase by phase. -/
inductive Step (threshold : Nat) (before : Round) : Seating → Round → Prop where
  /-- Students take seats of a room that was offered. -/
  | seat {place : Place} {pool : Pool} {entry : Seating} {demands : List Demand} {blocked : List Block}
      (offered : Offers before.pool place pool)
      (fits : entry.students.length ≤ pool.seatsLeft place)
      (slot : entry.slot = before.slot) (room : entry.room = place.room.name)
      (plain : entry.reserve = false) (blocks : Blocks threshold place entry before.blocked blocked) :
      Step threshold before entry
        ⟨before.slot, demands, pool.occupy place ⟨entry.ancode, entry.duration⟩ entry.students.length,
          Round.merge entry before.seatings, before.shortfalls, blocked⟩
  /-- A student takes a room as a whole. -/
  | alone {place : Place} {entry : Seating} {student : StudentId} {blocked : List Block}
      (free : place ∈ before.pool.free) (roomy : 0 < place.room.seats)
      (single : entry.students = [student])
      (slot : entry.slot = before.slot) (room : entry.room = place.room.name)
      (plain : entry.reserve = false) (blocks : Blocks threshold place entry before.blocked blocked) :
      Step threshold before entry
        ⟨before.slot, before.demands, before.pool.take place, Round.merge entry before.seatings,
          before.shortfalls, blocked⟩
  /-- Students find no seat. -/
  | short {entry : Seating} {demands : List Demand} {reason : ShortfallReason}
      (slot : entry.slot = before.slot) (room : entry.room = Room.placeholder)
      (plain : entry.reserve = false) (normal : entry.accommodated = false) :
      Step threshold before entry
        ⟨before.slot, demands, before.pool, Round.merge entry before.seatings,
          before.shortfalls ++ [⟨before.slot, entry.ancode, entry.students.length, reason⟩],
          before.blocked⟩
  /-- A reserve is echoed and its room closed. -/
  | echo {place : Place} {pool : Pool} {entry : Seating} (offered : Offers before.pool place pool)
      (slot : entry.slot = before.slot) (room : entry.room = place.room.name)
      (reserved : entry.reserve = true) :
      Step threshold before entry
        ⟨before.slot, before.demands, pool.close place, before.seatings ++ [entry], before.shortfalls,
          before.blocked⟩
  /-- A free room is kept in reserve. -/
  | keep {place : Place} {entry : Seating} (free : place ∈ before.pool.free)
      (slot : entry.slot = before.slot) (room : entry.room = place.room.name)
      (reserved : entry.reserve = true) (empty : entry.students = []) :
      Step threshold before entry
        ⟨before.slot, before.demands, before.pool.take place, before.seatings ++ [entry],
          before.shortfalls, before.blocked⟩

inductive Run (threshold : Nat) : Round → List Seating → Round → Prop where
  | done (round : Round) : Run threshold round [] round
  | next {before middle after : Round} {entry : Seating} {entries : List Seating}
      (first : Step threshold before entry middle) (rest : Run threshold middle entries after) :
      Run threshold before (entry :: entries) after

variable {threshold : Nat} {before middle after : Round} {entry : Seating} {entries : List Seating}
  {kind : Seating → Bool} {place : Place}

theorem Run.single (step : Step threshold before entry after) : Run threshold before [entry] after :=
  .next step (.done after)

theorem Run.append {later : List Seating} (first : Run threshold before entries middle)
    (rest : Run threshold middle later after) : Run threshold before (entries ++ later) after := by
  induction first with
  | done => exact rest
  | next step _ ih => exact .next step (ih rest)

theorem Step.slot_eq (step : Step threshold before entry after) : after.slot = before.slot := by
  cases step <;> rfl

theorem Step.entry_slot (step : Step threshold before entry after) : entry.slot = before.slot := by
  cases step <;> assumption

theorem Step.sound (step : Step threshold before entry after) (kept : Sound before.pool) :
    Sound after.pool := by
  cases step with
  | seat offered => exact (offered.sound kept).update _ fun _ => rfl
  | alone => exact kept.take _
  | short => exact kept
  | echo offered => exact (offered.sound kept).update _ fun _ => rfl
  | keep => exact kept.take _

theorem Step.places_eq (step : Step threshold before entry after) :
    after.pool.places = before.pool.places := by
  cases step with
  | seat offered => exact offered.places_eq
  | alone => rfl
  | short => rfl
  | echo offered => exact offered.places_eq
  | keep => rfl

/-- A room that is neither free nor in use stays so. -/
theorem Step.holds (step : Step threshold before entry after) (kept : Sound before.pool)
    (held : Holds after.pool place) : Holds before.pool place := by
  cases step with
  | seat offered => exact (offered.holds_iff kept).mp (holds_occupy.mp held)
  | alone => exact held.of_take
  | short => exact held
  | echo offered => exact (offered.holds_iff kept).mp (holds_close.mp held)
  | keep => exact held.of_take

/-- An entry names a room that is free or in use, or it stands for students without a seat. -/
theorem Step.housed (step : Step threshold before entry after) :
    (∃ place, Holds before.pool place ∧ entry.room = place.room.name) ∨
      entry.room = Room.placeholder ∧ after.shortfalls ≠ [] := by
  cases step with
  | seat offered _ _ room => exact .inl ⟨_, offered.holds, room⟩
  | alone free _ _ _ room => exact .inl ⟨_, .inl free, room⟩
  | short _ room => exact .inr ⟨room, by simp⟩
  | echo offered _ room => exact .inl ⟨_, offered.holds, room⟩
  | keep free _ room => exact .inl ⟨_, .inl free, room⟩

theorem Step.shortfalls_prefix (step : Step threshold before entry after) :
    before.shortfalls <+: after.shortfalls := by
  cases step with
  | short => exact List.prefix_append _ _
  | _ => exact List.prefix_rfl

theorem Step.shortfall_slots (step : Step threshold before entry after)
    (kept : ∀ shortfall ∈ before.shortfalls, shortfall.slot = before.slot) :
    ∀ shortfall ∈ after.shortfalls, shortfall.slot = after.slot := by
  cases step with
  | short =>
    intro shortfall member
    rcases List.mem_append.mp member with member | member
    · exact kept shortfall member
    · rw [List.mem_singleton.mp member]
  | _ => exact kept

theorem Step.students (step : Step threshold before entry after)
    (blind : ∀ entry, kind (key entry) = kind entry) :
    (studentsOf kind after.seatings).Perm
      (studentsOf kind before.seatings ++ studentsOf kind [entry]) := by
  cases step with
  | seat _ _ _ _ plain => exact studentsOf_merge blind plain _
  | alone _ _ _ _ _ plain => exact studentsOf_merge blind plain _
  | short _ _ plain => exact studentsOf_merge blind plain _
  | echo => exact studentsOf_append _ _ ▸ .refl _
  | keep => exact studentsOf_append _ _ ▸ .refl _

theorem Step.mem_keys (step : Step threshold before entry after) {other : Seating} :
    other ∈ after.seatings.map key ↔ other ∈ before.seatings.map key ∨ other = key entry := by
  cases step with
  | seat _ _ _ _ plain => exact mem_keys_merge plain
  | alone _ _ _ _ _ plain => exact mem_keys_merge plain
  | short _ _ plain => exact mem_keys_merge plain
  | echo => simp
  | keep => simp

theorem Step.reserves (step : Step threshold before entry after) :
    after.seatings.filter (·.reserve) = before.seatings.filter (·.reserve) ++ [entry].filter (·.reserve) := by
  cases step with
  | seat _ _ _ _ plain => exact merge_reserves plain _
  | alone _ _ _ _ _ plain => exact merge_reserves plain _
  | short _ _ plain => exact merge_reserves plain _
  | echo => exact List.filter_append ..
  | keep => exact List.filter_append ..

/-- Entries of other kinds are out of reach. -/
theorem Step.filter_other (step : Step threshold before entry after) (blind : ∀ entry, kind (key entry) = kind entry)
    (other : kind entry = false) : after.seatings.filter kind = before.seatings.filter kind := by
  have appended : (before.seatings ++ [entry]).filter kind = before.seatings.filter kind := by
    rw [List.filter_append, List.filter_singleton, other, cond_false, List.append_nil]
  cases step with
  | seat _ _ _ _ plain => exact merge_other blind plain other _
  | alone _ _ _ _ _ plain => exact merge_other blind plain other _
  | short _ _ plain => exact merge_other blind plain other _
  | echo => exact appended
  | keep => exact appended

theorem Step.seatings_eq (step : Step threshold before entry after) (plain : entry.reserve = false) :
    after.seatings = Round.merge entry before.seatings := by
  cases step with
  | seat => rfl
  | alone => rfl
  | short => rfl
  | echo _ _ _ reserved => simp [plain] at reserved
  | keep _ _ _ reserved => simp [plain] at reserved

/-- What holds of the entries a step finds and of its own holds of those it leaves. -/
theorem Step.seatings_all {good : Seating → Prop} (step : Step threshold before entry after)
    (together : ∀ first, key first = key entry → good first →
      good { first with students := first.students ++ entry.students })
    (own : good entry) (all : ∀ other ∈ before.seatings, good other) : ∀ other ∈ after.seatings, good other := by
  cases step with
  | seat _ _ _ _ plain => exact merge_all plain together own all
  | alone _ _ _ _ _ plain => exact merge_all plain together own all
  | short _ _ plain => exact merge_all plain together own all
  | echo => exact List.forall_mem_append.mpr ⟨all, List.forall_mem_singleton.mpr own⟩
  | keep => exact List.forall_mem_append.mpr ⟨all, List.forall_mem_singleton.mpr own⟩

theorem Run.preserves (kept : Round → Prop)
    (step : ∀ {before entry after}, Step threshold before entry after → kept before → kept after)
    (run : Run threshold before entries after) (start : kept before) : kept after := by
  induction run with
  | done => exact start
  | next first _ ih => exact ih (step first start)

theorem Run.sound (run : Run threshold before entries after) (kept : Sound before.pool) :
    Sound after.pool :=
  run.preserves (fun round => Sound round.pool) Step.sound kept

theorem Run.slot_eq (run : Run threshold before entries after) : after.slot = before.slot :=
  run.preserves (·.slot = before.slot) (fun step same => step.slot_eq.trans same) rfl

theorem Run.places_eq (run : Run threshold before entries after) :
    after.pool.places = before.pool.places :=
  run.preserves (·.pool.places = before.pool.places)
    (fun step same => step.places_eq.trans same) rfl

theorem Run.shortfalls_prefix (run : Run threshold before entries after) :
    before.shortfalls <+: after.shortfalls := by
  induction run with
  | done => exact List.prefix_rfl
  | next first _ ih => exact first.shortfalls_prefix.trans ih

theorem Run.entry_slot (run : Run threshold before entries after) :
    ∀ entry ∈ entries, entry.slot = before.slot := by
  induction run with
  | done => simp
  | next first _ ih =>
    rintro entry (_ | ⟨_, member⟩)
    · exact first.entry_slot
    · exact (ih entry member).trans first.slot_eq

theorem Run.holds (run : Run threshold before entries after) (kept : Sound before.pool)
    (held : Holds after.pool place) : Holds before.pool place := by
  induction run with
  | done => exact held
  | next first _ ih => exact first.holds kept (ih (first.sound kept) held)

theorem Run.housed (run : Run threshold before entries after) (kept : Sound before.pool) :
    ∀ entry ∈ entries, (∃ place, Holds before.pool place ∧ entry.room = place.room.name) ∨
      entry.room = Room.placeholder ∧ after.shortfalls ≠ [] := by
  induction run with
  | done => simp
  | next first rest ih =>
    rintro entry (_ | ⟨_, member⟩)
    · exact first.housed.imp_right fun ⟨nowhere, short⟩ => ⟨nowhere, fun none => short
        (List.prefix_nil.mp (none ▸ rest.shortfalls_prefix))⟩
    · refine (ih (first.sound kept) entry member).imp_left ?_
      rintro ⟨place, held, room⟩
      exact ⟨place, first.holds kept held, room⟩

/-- The entries of a run bring exactly their students. -/
theorem Run.students (run : Run threshold before entries after)
    (blind : ∀ entry, kind (key entry) = kind entry) :
    (studentsOf kind after.seatings).Perm
      (studentsOf kind before.seatings ++ studentsOf kind entries) := by
  induction run with
  | done => simp
  | @next _ _ _ entry entries first _ ih =>
    rw [studentsOf_cons entry entries, ← List.append_assoc]
    exact ih.trans ((first.students blind).append_right _)

theorem Run.reserves (run : Run threshold before entries after) :
    after.seatings.filter (·.reserve) = before.seatings.filter (·.reserve) ++ entries.filter (·.reserve) := by
  induction run with
  | done => rw [List.filter_nil, List.append_nil]
  | @next _ _ _ entry entries first _ ih =>
    rw [ih, first.reserves, List.append_assoc, ← List.filter_append, List.singleton_append]

theorem Run.filter_other (run : Run threshold before entries after) (blind : ∀ entry, kind (key entry) = kind entry)
    (others : ∀ entry ∈ entries, kind entry = false) : after.seatings.filter kind = before.seatings.filter kind := by
  induction run with
  | done => rfl
  | next first _ ih =>
    rw [List.forall_mem_cons] at others
    exact (ih others.2).trans (first.filter_other blind others.1)

theorem Run.mem_keys (run : Run threshold before entries after) {other : Seating} :
    other ∈ after.seatings.map key ↔ other ∈ before.seatings.map key ∨ other ∈ entries.map key := by
  induction run with
  | done => simp
  | next first _ ih => rw [ih, first.mem_keys, List.map_cons, List.mem_cons, or_assoc]

theorem Run.seatings_all {good : Seating → Prop} (run : Run threshold before entries after)
    (together : ∀ first second, key first = key second → good first → good second →
      good { first with students := first.students ++ second.students })
    (own : ∀ entry ∈ entries, good entry) (all : ∀ other ∈ before.seatings, good other) :
    ∀ other ∈ after.seatings, good other := by
  induction run with
  | done => exact all
  | next first _ ih =>
    rw [List.forall_mem_cons] at own
    exact ih own.2 (first.seatings_all (fun other same held => together other _ same held own.1) own.1 all)

/-- The students of an entry that is noted stand in an entry with its key. -/
theorem Run.exists_noted {student : StudentId} (run : Run threshold before entries after)
    (noted : entry ∈ entries) (seated : student ∈ entry.students) :
    ∃ other ∈ after.seatings, key other = key entry ∧ student ∈ other.students := by
  have present : student ∈ studentsOf (fun other => key other = key entry) entries :=
    mem_studentsOf.mpr ⟨entry, noted, decide_eq_true rfl, seated⟩
  have listed : student ∈ studentsOf (fun other => key other = key entry) after.seatings := by
    rw [(run.students fun _ => rfl).mem_iff]
    exact List.mem_append_right _ present
  obtain ⟨other, member, same, inside⟩ := mem_studentsOf.mp listed
  exact ⟨other, member, of_decide_eq_true same, inside⟩

def Adds (threshold : Nat) (places : List Place) (entry : Seating) (block : Block) : Prop :=
  entry.reserve = false ∧ (entry.accommodated ∧ threshold < entry.duration) ∧
    ∃ place ∈ places, place.room.name = entry.room ∧
      ∃ next, entry.slot.next = .ok next ∧ block = (place.position, next)

private theorem adds_iff {places : List Place} {block : Block} {blocked : List Block}
    (named : (places.map (·.room.name)).Nodup) (known : place ∈ places)
    (room : entry.room = place.room.name) (plain : entry.reserve = false)
    (blocks : Blocks threshold place entry before.blocked blocked) :
    block ∈ blocked ↔ block ∈ before.blocked ∨ Adds threshold places entry block := by
  unfold Blocks at blocks
  split at blocks
  · rename_i long
    obtain ⟨next, neighbour, rfl⟩ := blocks
    rw [List.mem_cons, or_comm]
    refine or_congr_right ⟨?_, ?_⟩
    · rintro rfl
      exact ⟨plain, long, place, known, room.symm, next, neighbour, rfl⟩
    · rintro ⟨-, -, other, present, name, later, found, rfl⟩
      rw [Lookups.eq_of_key named present known (name.trans room)]
      rw [neighbour] at found
      rw [Except.ok.inj found]
  · rename_i short
    rw [blocks]
    exact ⟨.inl, fun either => either.resolve_right fun adds => short adds.2.1⟩

theorem Step.mem_blocked (step : Step threshold before entry after) (kept : Sound before.pool)
    (named : (before.pool.places.map (·.room.name)).Nodup) {block : Block} :
    block ∈ after.blocked ↔
      block ∈ before.blocked ∨ Adds threshold before.pool.places entry block := by
  cases step with
  | seat offered _ _ room plain blocks => exact adds_iff named (offered.known kept) room plain blocks
  | alone free _ _ _ room plain blocks => exact adds_iff named (kept.free_known _ free) room plain blocks
  | short _ _ _ normal =>
    exact ⟨.inl, fun either => either.resolve_right fun adds => absurd adds.2.1.1 (by simp [normal])⟩
  | echo _ _ _ reserved =>
    exact ⟨.inl, fun either => either.resolve_right fun adds => absurd adds.1 (by simp [reserved])⟩
  | keep _ _ _ reserved =>
    exact ⟨.inl, fun either => either.resolve_right fun adds => absurd adds.1 (by simp [reserved])⟩

theorem Step.exists_next (step : Step threshold before entry after) (plain : entry.reserve = false)
    (long : entry.accommodated ∧ threshold < entry.duration) : ∃ next, entry.slot.next = .ok next := by
  have neighbour {place : Place} {blocked : List Block}
      (blocks : Blocks threshold place entry before.blocked blocked) :
      ∃ next, entry.slot.next = .ok next := by
    rw [Blocks, if_pos long] at blocks
    obtain ⟨next, found, -⟩ := blocks
    exact ⟨next, found⟩
  cases step with
  | seat _ _ _ _ _ blocks => exact neighbour blocks
  | alone _ _ _ _ _ _ blocks => exact neighbour blocks
  | short _ _ _ normal => simp [normal] at long
  | echo _ _ _ reserved => simp [plain] at reserved
  | keep _ _ _ reserved => simp [plain] at reserved

theorem Run.mem_blocked (run : Run threshold before entries after) (kept : Sound before.pool)
    (named : (before.pool.places.map (·.room.name)).Nodup) {block : Block} :
    block ∈ after.blocked ↔
      block ∈ before.blocked ∨ ∃ entry ∈ entries, Adds threshold before.pool.places entry block := by
  induction run with
  | done => simp
  | next first _ ih =>
    rw [ih (first.sound kept) (first.places_eq ▸ named), first.mem_blocked kept named, first.places_eq]
    simp only [List.mem_cons, exists_eq_or_imp, or_assoc]

theorem Run.exists_next (run : Run threshold before entries after) :
    ∀ entry ∈ entries, entry.reserve = false → entry.accommodated ∧ threshold < entry.duration →
      ∃ next, entry.slot.next = .ok next := by
  induction run with
  | done => simp
  | next first _ ih => exact List.forall_mem_cons.mpr ⟨first.exists_next, ih⟩

/-- Where nothing is kept in reserve, the entries that stand have distinct keys and are not empty. -/
theorem Run.entries_distinct (run : Run threshold before entries after)
    (plain : ∀ entry ∈ entries, entry.reserve = false) (filled : ∀ entry ∈ entries, entry.students ≠ [])
    (start : (before.seatings.map key).Nodup ∧ ∀ entry ∈ before.seatings, entry.students ≠ []) :
    (after.seatings.map key).Nodup ∧ ∀ entry ∈ after.seatings, entry.students ≠ [] := by
  induction run with
  | done => exact start
  | next first _ ih =>
    rw [List.forall_mem_cons] at plain filled
    refine ih plain.2 filled.2 ?_
    rw [first.seatings_eq plain.1]
    exact ⟨keys_merge_nodup plain.1 start.1, merge_filled plain.1 filled.1 start.2⟩

end Timetable.Proofs.SeatingSteps
