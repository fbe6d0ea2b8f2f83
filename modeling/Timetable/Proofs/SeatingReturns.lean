import Timetable.Planning
import Timetable.Proofs.Chronology
import Timetable.Proofs.SeatingFrames
import Timetable.Proofs.SeatingPhases

/-! Allocations that run to their end. Shortfalls are entries of a plan; a fault comes from minutes of a
student with additional time beyond 64 bits, or from a room to be blocked for a slot beyond all numbers. -/

namespace Timetable.Proofs.SeatingReturns
open Chronology SeatingFrames SeatingPhases Returned

def percent? : Grant → Option Nat
  | .nothing => none
  | .extraTime percent => some percent
  | .roomAlone percent => some percent

/-- If a sitting is long enough to block its room, there is a slot after its own. -/
def Noted (threshold : Nat) (slot : Slot) (duration : Nat) : Prop :=
  threshold < duration → slot.number + 1 < numberLimit

variable {threshold : Nat} {records : List Accommodation} {pinned : List Seating} {slot : Slot}
  {exams : List Exam} {exam : Exam} {round : Round} {demand : Demand} {place : Place} {sitting : Sitting}
  {students : List StudentId} {accommodated : Bool} {percentOf? : StudentId → Option Nat} {params : RoomParams}
  {entries : List TimedStudent} {entry : TimedStudent} {index : Nat} {pin : Seating} {allocator : Allocator}
  {blocked : List Block} {agenda : Agenda Exam}

theorem extraTime_percent {grant : Grant} {percent : Nat}
    (granted : (match grant with | .extraTime percent => some percent | _ => none) = some percent) :
    percent? grant = some percent := by
  cases grant <;> simp_all [percent?]

theorem roomAlone_percent {grant : Grant} {percent : Nat}
    (granted : (match grant with | .roomAlone percent => some percent | _ => none) = some percent) :
    percent? grant = some percent := by
  cases grant <;> simp_all [percent?]

theorem timed_scaled (returned : Demand.timed exam percentOf? = .ok entries) (member : entry ∈ entries) :
    entry.student ∈ exam.registrants ∧ ∃ percent, percentOf? entry.student = some percent ∧
      scaledDuration exam.duration percent = .ok entry.duration := by
  rw [Demand.timed] at returned
  obtain ⟨⟨student, percent⟩, listed, timed⟩ := exists_item returned member
  obtain ⟨other, registered, same⟩ := List.mem_filterMap.mp listed
  obtain ⟨_, granted, same⟩ := Option.map_eq_some_iff.mp same
  obtain ⟨rfl, rfl⟩ := Prod.mk.inj same
  obtain ⟨minutes, scaled, timed⟩ := bind_ok timed
  obtain rfl := pure_ok timed
  exact ⟨registered, _, granted, scaled⟩

structure Calm (threshold : Nat) (slot : Slot) (exams : List Exam) (round : Round) : Prop where
  here : round.slot = slot
  known : ∀ demand ∈ round.demands, demand.exam ∈ exams
  noted : ∀ demand ∈ round.demands, ∀ entry ∈ demand.extended ++ demand.alone, Noted threshold slot entry.duration

structure LeftOf (demand rest : Demand) : Prop where
  exam : rest.exam = demand.exam
  timed : ∀ entry ∈ rest.extended ++ rest.alone, entry ∈ demand.extended ++ demand.alone

private theorem leftOf_drop (demand : Demand) (n : Nat) : LeftOf demand (demand.dropNormal n) := ⟨rfl, fun _ => id⟩

private theorem leftOf_without (demand : Demand) (seated : List StudentId) : LeftOf demand (demand.without seated) where
  exam := rfl
  timed entry member := by
    rcases List.mem_append.mp member with member | member
    · exact List.mem_append_left _ (List.mem_filter.mp member).1
    · exact List.mem_append_right _ (List.mem_filter.mp member).1

theorem leftOf_drawn (demand : Demand) (pin : Seating) (seats : Nat) : LeftOf demand (drawn demand pin seats).2 := by
  unfold drawn
  split
  · exact leftOf_drop demand seats
  · exact leftOf_without demand _

theorem Calm.set {rest : Demand} (calm : Calm threshold slot exams round) (present : demand ∈ round.demands)
    (left : LeftOf demand rest) {pool : Pool} :
    Calm threshold slot exams { round with demands := round.demands.set index rest, pool } where
  here := calm.here
  known other member := by
    rcases List.mem_or_eq_of_mem_set member with member | rfl
    · exact calm.known other member
    · exact left.exam ▸ calm.known demand present
  noted other member := by
    rcases List.mem_or_eq_of_mem_set member with member | rfl
    · exact calm.noted other member
    · exact fun entry timed => calm.noted demand present entry (left.timed entry timed)

theorem Calm.pool (calm : Calm threshold slot exams round) (pool : Pool) :
    Calm threshold slot exams { round with pool } :=
  ⟨calm.here, calm.known, calm.noted⟩

theorem Calm.fallShort (calm : Calm threshold slot exams round) {reason : ShortfallReason} :
    Calm threshold slot exams (round.fallShort sitting students reason) :=
  ⟨calm.here, calm.known, calm.noted⟩

end Timetable.Proofs.SeatingReturns
