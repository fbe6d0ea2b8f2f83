import Timetable.Proofs.Returned
import Timetable.Seating.Allocation

/-! Rounds on top of other slots. An entry is merged with entries of its own slot only, so what other
slots have noted and blocked stays as it is, and the round goes on as if it were not there. -/

namespace Timetable.Proofs.SeatingFrames
open Returned

variable {earlier : RoomPlan} {blocks : List Block} {round : Round} {threshold : Nat} {place : Place}
  {sitting : Sitting} {students : List StudentId} {accommodated : Bool} {params : RoomParams} {index : Nat}
  {pin entry : Seating} {demand : Demand} {exam : Exam} {timed : TimedStudent} {reason : ShortfallReason}

private theorem merge_apart {front : List Seating} (apart : ∀ other ∈ front, other.slot ≠ entry.slot)
    (back : List Seating) :
    Round.merge entry (front ++ back) = front ++ Round.merge entry back := by
  induction front with
  | nil => rfl
  | cons head rest ih =>
    rw [List.forall_mem_cons] at apart
    rw [List.cons_append, Round.merge, if_neg fun same => apart.1 same.1, ih apart.2, List.cons_append]

/-- A round with the entries of other slots in front of its own, and their blocks behind. -/
def onto (earlier : RoomPlan) (blocks : List Block) (round : Round) : Round :=
  { round with
    seatings := earlier.seatings.filter (·.slot ≠ round.slot) ++ round.seatings
    shortfalls := earlier.shortfalls ++ round.shortfalls
    blocked := round.blocked ++ blocks }

@[simp] private theorem onto_demands : (onto earlier blocks round).demands = round.demands := rfl

@[simp] private theorem onto_pool : (onto earlier blocks round).pool = round.pool := rfl

private theorem merge_onto (slot : entry.slot = round.slot) :
    Round.merge entry (onto earlier blocks round).seatings
      = earlier.seatings.filter (·.slot ≠ round.slot) ++ Round.merge entry round.seatings := by
  refine merge_apart (fun other member => ?_) _
  simpa [slot] using (List.mem_filter.mp member).2

private theorem seat_onto : (onto earlier blocks round).seat threshold place sitting students accommodated
    = (round.seat threshold place sitting students accommodated).map (onto earlier blocks) := by
  unfold Round.seat
  rw [merge_onto rfl]
  split
  · exact bind_map fun _ => rfl
  · rfl

private theorem fallShort_onto : (onto earlier blocks round).fallShort sitting students reason
    = onto earlier blocks (round.fallShort sitting students reason) := by
  rw [Round.fallShort, merge_onto rfl]
  simp only [onto, Round.fallShort, List.append_assoc]
  rfl

private theorem pinReserve_onto : (onto earlier blocks round).pinReserve place pin
    = onto earlier blocks (round.pinReserve place pin) := by
  simp only [Round.pinReserve, onto, List.append_assoc]
  rfl

private theorem pinStudents_onto : (onto earlier blocks round).pinStudents threshold index demand place pin
    = (round.pinStudents threshold index demand place pin).map (onto earlier blocks) := by
  unfold Round.pinStudents
  split
  · rw [← seat_onto]
    rfl
  · rw [← seat_onto]
    rfl

private theorem pin_onto :
    (onto earlier blocks round).pin threshold pin = (round.pin threshold pin).map (onto earlier blocks) := by
  unfold Round.pin
  rw [onto_demands]
  split
  · rfl
  · rw [onto_pool]
    split
    · rfl
    · dsimp only
      split
      · rw [Except.map, ← pinReserve_onto]
        rfl
      · rw [← pinStudents_onto]
        rfl

private theorem seatNormal_onto : (onto earlier blocks round).seatNormal params demand index
    = (round.seatNormal params demand index).map (onto earlier blocks) := by
  simp only [Round.seatNormal, onto_pool]
  split
  · rw [← seat_onto]
    rfl
  · rw [Except.map, ← fallShort_onto]
    rfl

private theorem seatNormals_onto (params : RoomParams) (steps : Nat) (round : Round) :
    (onto earlier blocks round).seatNormals params steps
      = (round.seatNormals params steps).map (onto earlier blocks) := by
  induction steps generalizing round with
  | zero => rfl
  | succ steps ih =>
    rw [Round.seatNormals, Round.seatNormals, onto_demands]
    split
    · rfl
    · rw [seatNormal_onto]
      exact map_bind_map ih

private theorem seatExtended_onto : Round.seatExtended threshold exam (onto earlier blocks round) timed
    = (Round.seatExtended threshold exam round timed).map (onto earlier blocks) := by
  simp only [Round.seatExtended, onto_pool]
  split
  · rw [← seat_onto]
    rfl
  · rw [Except.map, ← fallShort_onto]

private theorem seatAlone_onto : Round.seatAlone threshold exam (onto earlier blocks round) timed
    = (Round.seatAlone threshold exam round timed).map (onto earlier blocks) := by
  simp only [Round.seatAlone, onto_pool]
  split
  · rw [← seat_onto]
    rfl
  · rw [Except.map, ← fallShort_onto]

private theorem seatAccommodated_onto : Round.seatAccommodated threshold (onto earlier blocks round) demand
    = (Round.seatAccommodated threshold round demand).map (onto earlier blocks) := by
  unfold Round.seatAccommodated
  rw [foldlM_map fun _ _ => seatExtended_onto]
  exact map_bind_map fun _ => foldlM_map (fun _ _ => seatAlone_onto) _ _

private theorem keepReserve_onto (minStudents : Nat) (round : Round) (demand : Demand) :
    Round.keepReserve minStudents (onto earlier blocks round) demand
      = onto earlier blocks (Round.keepReserve minStudents round demand) := by
  unfold Round.keepReserve
  split
  · rfl
  · rw [onto_pool]
    split
    · simp only [onto, List.append_assoc]
    · rfl

private theorem keepReserves_onto (minStudents : Nat) (round : Round) :
    (onto earlier blocks round).keepReserves minStudents = onto earlier blocks (round.keepReserves minStudents) := by
  unfold Round.keepReserves
  split
  · rfl
  · exact List.foldl_hom (onto earlier blocks) (keepReserve_onto minStudents)

def finish (allocator : Allocator) (pinned : List Seating) (slot : Slot) (round : Round) : Except Fault Round := do
  let threshold := allocator.params.longDurationThreshold
  let round ← (pinned.filter (·.slot = slot)).foldlM (·.pin threshold ·) round
  let round ← round.seatNormals allocator.params round.normalCount
  let round ← round.demands.foldlM (Round.seatAccommodated threshold) round
  return round.keepReserves allocator.params.reserveMinStudents

theorem finish_onto (allocator : Allocator) (pinned : List Seating) (slot : Slot) (round : Round) :
    finish allocator pinned slot (onto earlier blocks round)
      = (finish allocator pinned slot round).map (onto earlier blocks) := by
  unfold finish
  dsimp only
  rw [foldlM_map fun _ _ => pin_onto]
  refine map_bind_map fun pinned => ?_
  have count : (onto earlier blocks pinned).normalCount = pinned.normalCount := rfl
  rw [count, seatNormals_onto]
  refine map_bind_map fun seated => ?_
  rw [onto_demands, foldlM_map fun _ _ => seatAccommodated_onto]
  refine map_bind_map fun finished => ?_
  rw [keepReserves_onto]
  rfl

section
variable {allocator : Allocator} {records : List Accommodation} {pinned : List Seating} {blocked others : List Block}
  {slot : Slot} {exams : List Exam}

theorem allocateSlot_eq : allocator.allocateSlot records pinned blocked slot exams
    = allocator.start records blocked slot exams >>= finish allocator pinned slot := rfl

/-- Blocks that close the same rooms in a slot lead to one round, with the blocks of earlier slots behind. -/
theorem allocateSlot_onto (allocator : Allocator) (records : List Accommodation) (pinned : List Seating)
    (exams : List Exam) (same : ∀ position, (position, slot) ∈ others ↔ (position, slot) ∈ blocked) :
    ∃ base : Except Fault Round,
      allocator.allocateSlot records pinned blocked slot exams = base.map (onto ⟨[], []⟩ blocked) ∧
      allocator.allocateSlot records pinned others slot exams = base.map (onto ⟨[], []⟩ others) := by
  have closed : ∀ place : Place, others.contains (place.position, slot) = blocked.contains (place.position, slot) := by
    intro place
    rw [Bool.eq_iff_iff, List.contains_iff_mem, List.contains_iff_mem, same]
  simp only [allocateSlot_eq, Allocator.start, closed]
  cases exams.mapM (Demand.ofExam records) with
  | error fault => exact ⟨.error fault, rfl, rfl⟩
  | ok demands =>
    let pool := Pool.ofPlaces (Place.ofRooms allocator.rooms) fun place =>
      !allocator.unavailable.contains (place.position, slot) && !blocked.contains (place.position, slot)
    refine ⟨finish allocator pinned slot ⟨slot, demands, pool, [], [], []⟩, ?_, ?_⟩
    · rw [← finish_onto]
      rfl
    · rw [← finish_onto]
      rfl

end

end Timetable.Proofs.SeatingFrames
