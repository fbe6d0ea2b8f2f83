import Timetable.Proofs.LinkedExams
import Timetable.Proofs.Returned
import Timetable.Seating.Allocation

/-! Rooms for exams without their links. Seating looks at the number, the duration, the registrants and
the requirements of an exam, so links make no difference to it. -/

namespace Timetable.Proofs.SeatingUnlinked
open LinkedExams Returned

def bareDemand (demand : Demand) : Demand := { demand with exam := unlinked demand.exam }

def bareRound (round : Round) : Round := { round with demands := round.demands.map bareDemand }

/-- An agenda of exams without their links. -/
def bareAgenda (agenda : Agenda Exam) : Agenda Exam := agenda.map fun item => (item.1, item.2.map unlinked)

private theorem bareAgenda_cons (item : Slot × List Exam) (agenda : Agenda Exam) :
    bareAgenda (item :: agenda) = (item.1, item.2.map unlinked) :: bareAgenda agenda := rfl

variable {records : List Accommodation} {exam : Exam} {demand : Demand} {round : Round} {threshold : Nat}
  {place : Place} {sitting : Sitting} {students : List StudentId} {accommodated : Bool} {params : RoomParams}
  {index : Nat} {pin : Seating} {entry : TimedStudent}

@[simp] private theorem bareDemand_exam (demand : Demand) : (bareDemand demand).exam = unlinked demand.exam := rfl

@[simp] private theorem bareDemand_normal (demand : Demand) : (bareDemand demand).normal = demand.normal := rfl

@[simp] private theorem unlinked_duration (exam : Exam) : (unlinked exam).duration = exam.duration := rfl

@[simp] private theorem needs_unlinked (exam : Exam) : RoomNeeds.ofExam (unlinked exam) = RoomNeeds.ofExam exam := rfl

@[simp] private theorem bareRound_pool (round : Round) : (bareRound round).pool = round.pool := rfl

@[simp] private theorem bareRound_demands (round : Round) :
    (bareRound round).demands = round.demands.map bareDemand := rfl

private theorem ofExam_unlinked (records : List Accommodation) (exam : Exam) :
    Demand.ofExam records (unlinked exam) = (Demand.ofExam records exam).map bareDemand :=
  bind_map fun _ => bind_map fun _ => rfl

private theorem seat_bare : (bareRound round).seat threshold place sitting students accommodated
    = (round.seat threshold place sitting students accommodated).map bareRound := by
  unfold Round.seat
  split
  · exact bind_map fun _ => rfl
  · rfl

private theorem pinStudents_bare : (bareRound round).pinStudents threshold index (bareDemand demand) place pin
    = (round.pinStudents threshold index demand place pin).map bareRound := by
  unfold Round.pinStudents
  split
  · rw [← seat_bare]
    simp only [bareRound, List.map_set]
    rfl
  · rw [← seat_bare]
    simp only [bareRound, List.map_set]
    rfl

private theorem pin_bare : (bareRound round).pin threshold pin = (round.pin threshold pin).map bareRound := by
  have found : (bareRound round).demands.zipIdx.find? (·.1.exam.ancode = pin.ancode)
      = (round.demands.zipIdx.find? (·.1.exam.ancode = pin.ancode)).map fun pair => (bareDemand pair.1, pair.2) := by
    change (round.demands.map bareDemand).zipIdx.find? _ = _
    rw [List.zipIdx_map, List.find?_map]
    rfl
  unfold Round.pin
  rw [found]
  cases round.demands.zipIdx.find? (·.1.exam.ancode = pin.ancode) with
  | none => rfl
  | some pair =>
    obtain ⟨demand, index⟩ := pair
    simp only [Option.map_some, bareRound_pool]
    cases round.pool.openNamed? pin.room with
    | none => rfl
    | some opened =>
      obtain ⟨place, pool⟩ := opened
      dsimp only
      split
      · rfl
      · rw [← pinStudents_bare]
        rfl

private theorem mostUrgent?_bare (demands : List Demand) : Round.mostUrgent? (demands.map bareDemand)
    = (Round.mostUrgent? demands).map fun pair => (bareDemand pair.1, pair.2) := by
  unfold Round.mostUrgent?
  rw [List.zipIdx_map, List.filter_map]
  exact Ordering.lastMax?_map (f := fun pair : Demand × Nat => (bareDemand pair.1, pair.2)) (fun _ _ => rfl) _

private theorem seatNormal_bare : (bareRound round).seatNormal params (bareDemand demand) index
    = (round.seatNormal params demand index).map bareRound := by
  simp only [Round.seatNormal, bareRound_pool, bareDemand_exam, bareDemand_normal, unlinked_duration, needs_unlinked]
  split
  · rw [← seat_bare]
    simp only [bareRound, List.map_set]
    rfl
  · simp only [bareRound, Round.fallShort, Except.map, List.map_set]
    rfl

private theorem seatNormals_bare (params : RoomParams) (steps : Nat) (round : Round) :
    (bareRound round).seatNormals params steps = (round.seatNormals params steps).map bareRound := by
  induction steps generalizing round with
  | zero => rfl
  | succ steps ih =>
    rw [Round.seatNormals, Round.seatNormals, bareRound_demands, mostUrgent?_bare]
    cases Round.mostUrgent? round.demands with
    | none => rfl
    | some pair =>
      obtain ⟨demand, index⟩ := pair
      dsimp only [Option.map_some]
      rw [seatNormal_bare]
      exact map_bind_map ih

private theorem seatExtended_unlinked : Round.seatExtended threshold (unlinked exam) (bareRound round) entry
    = (Round.seatExtended threshold exam round entry).map bareRound := by
  simp only [Round.seatExtended, bareRound_pool, unlinked_ancode, needs_unlinked]
  split
  · rw [← seat_bare]
    rfl
  · rfl

private theorem seatAlone_unlinked : Round.seatAlone threshold (unlinked exam) (bareRound round) entry
    = (Round.seatAlone threshold exam round entry).map bareRound := by
  simp only [Round.seatAlone, bareRound_pool, unlinked_ancode, needs_unlinked]
  split
  · rw [← seat_bare]
    rfl
  · rfl

private theorem seatAccommodated_bare : Round.seatAccommodated threshold (bareRound round) (bareDemand demand)
    = (Round.seatAccommodated threshold round demand).map bareRound := by
  unfold Round.seatAccommodated
  rw [bareDemand_exam, foldlM_map fun _ _ => seatExtended_unlinked]
  exact map_bind_map fun _ => foldlM_map (fun _ _ => seatAlone_unlinked) _ _

private theorem keepReserve_bare (minStudents : Nat) (round : Round) (demand : Demand) :
    Round.keepReserve minStudents (bareRound round) (bareDemand demand)
      = bareRound (Round.keepReserve minStudents round demand) := by
  unfold Round.keepReserve
  change (if demand.normalTotal < minStudents then _ else _) = _
  split
  · rfl
  · simp only [bareRound_pool, bareDemand_exam, needs_unlinked]
    split <;> rfl

private theorem keepReserves_bare (minStudents : Nat) (round : Round) :
    (bareRound round).keepReserves minStudents = bareRound (round.keepReserves minStudents) := by
  unfold Round.keepReserves
  split
  · rfl
  · rw [bareRound_demands, List.foldl_map]
    exact List.foldl_hom bareRound (fun round demand => keepReserve_bare minStudents round demand)

section
variable {allocator : Allocator} {pinned : List Seating} {again : List Accommodation}

/-- Of accommodations only the one that counts for each student matters. -/
theorem grant_congr (same : Accommodation.of? again = Accommodation.of? records) :
    Grant.of again = Grant.of records := by
  funext student
  rw [Grant.of, Grant.of, same]

private theorem demands_unlinked (same : Accommodation.of? again = Accommodation.of? records) (exams : List Exam) :
    (exams.map unlinked).mapM (Demand.ofExam again)
      = (exams.mapM (Demand.ofExam records)).map (List.map bareDemand) := by
  have each : Demand.ofExam again = Demand.ofExam records := by
    funext exam
    simp only [Demand.ofExam, grant_congr same]
  rw [each, List.mapM_map]
  induction exams with
  | nil => rfl
  | cons exam rest ih =>
    rw [List.mapM_cons, List.mapM_cons, Function.comp_apply, ofExam_unlinked]
    refine map_bind_map fun demand => ?_
    rw [ih]
    exact map_bind_map fun _ => rfl

variable (same : Accommodation.of? again = Accommodation.of? records)
include same

private theorem start_unlinked (blocked : List Block) (slot : Slot) (exams : List Exam) :
    allocator.start again blocked slot (exams.map unlinked)
      = (allocator.start records blocked slot exams).map bareRound := by
  unfold Allocator.start
  rw [demands_unlinked same]
  exact map_bind_map fun _ => rfl

private theorem allocateSlot_unlinked (blocked : List Block) (slot : Slot) (exams : List Exam) :
    allocator.allocateSlot again pinned blocked slot (exams.map unlinked)
      = (allocator.allocateSlot records pinned blocked slot exams).map bareRound := by
  unfold Allocator.allocateSlot
  dsimp only
  rw [start_unlinked same]
  refine map_bind_map fun started => ?_
  rw [foldlM_map fun _ _ => pin_bare]
  refine map_bind_map fun pinned => ?_
  have count : (bareRound pinned).normalCount = pinned.normalCount := by
    rw [Round.normalCount, Round.normalCount, bareRound_demands, List.map_map]
    rfl
  rw [count, seatNormals_bare]
  refine map_bind_map fun seated => ?_
  rw [bareRound_demands, List.foldlM_map, foldlM_map fun _ _ => seatAccommodated_bare]
  refine map_bind_map fun finished => ?_
  rw [keepReserves_bare]
  rfl

/-- Links do not change who sits where. -/
theorem allocateFrom_unlinked (blocked : List Block) (agenda : Agenda Exam) :
    allocator.allocateFrom again pinned blocked (bareAgenda agenda)
      = allocator.allocateFrom records pinned blocked agenda := by
  induction agenda generalizing blocked with
  | nil => rfl
  | cons item rest ih =>
    rw [bareAgenda_cons, Allocator.allocateFrom, Allocator.allocateFrom, allocateSlot_unlinked same, map_bind]
    simp only [ih]
    rfl

end

end Timetable.Proofs.SeatingUnlinked
