import Timetable.Proofs.SeatingPhases

/-! Why somebody finds no seat. A room that does not suit an exam is not offered to it later either, so
the reason of a shortfall holds until the end of its slot. -/

namespace Timetable.Proofs.SeatReasons
open SeatDemands SeatEntries SeatPool SeatingSteps SeatingPhases Returned

variable {pool opened : Pool} {place : Place} {needs : RoomNeeds} {threshold : Nat} {before middle after : Round}
  {entry : Seating} {entries : List Seating} {reason : ShortfallReason} {exam : Exam} {demand : Demand}

def Denies (needs : RoomNeeds) (pool : Pool) : Prop :=
  ∀ place ∈ pool.free, Pool.isCompatible needs place = false

def Refuses (needs : RoomNeeds) (pool : Pool) : Prop :=
  Denies needs pool ∧ ∀ room ∈ pool.used, 0 < room.seatsLeft → needs.satisfiedBy room.place.room = false

theorem unsatisfied (incompatible : Pool.isCompatible needs place = false) (roomy : 0 < place.room.seats) :
    needs.satisfiedBy place.room = false := by
  simpa [Pool.isCompatible, roomy] using incompatible

/-- Seats are never given back: a room in use that has some left was free or had some before. -/
structure Narrows (pool after : Pool) : Prop where
  free : ∀ place ∈ after.free, place ∈ pool.free
  used : ∀ room ∈ after.used, 0 < room.seatsLeft →
    room.place ∈ pool.free ∧ 0 < room.place.room.seats ∨
      ∃ other ∈ pool.used, other.place = room.place ∧ 0 < other.seatsLeft

namespace Narrows

theorem refl (pool : Pool) : Narrows pool pool where
  free _ := id
  used room used left := .inr ⟨room, used, rfl, left⟩

theorem take (place : Place) : Narrows pool (pool.take place) where
  free _ remains := (List.mem_filter.mp remains).1
  used room used left := .inr ⟨room, used, rfl, left⟩

theorem offer (offered : Offers pool place opened) : Narrows pool opened := by
  cases offered with
  | inUse => exact refl pool
  | opened free =>
    refine ⟨fun _ remains => (List.mem_filter.mp remains).1, ?_⟩
    intro room used left
    rcases List.mem_append.mp used with used | used
    · exact .inr ⟨room, used, rfl, left⟩
    · obtain rfl := List.mem_singleton.mp used
      exact .inl ⟨free, left⟩

theorem update {change : UsedRoom → UsedRoom} (fixed : ∀ room, (change room).place = room.place)
    (fewer : ∀ room, (change room).seatsLeft ≤ room.seatsLeft) : Narrows pool (pool.update place change) where
  free _ := id
  used room used left := by
    obtain ⟨other, present, rfl⟩ := List.mem_map.mp used
    refine .inr ⟨other, present, ?_⟩
    split at left
    · rename_i same
      rw [if_pos same]
      exact ⟨(fixed other).symm, Nat.lt_of_lt_of_le left (fewer other)⟩
    · rename_i other
      rw [if_neg other]
      exact ⟨rfl, left⟩

theorem trans {last : Pool} (first : Narrows pool opened) (second : Narrows opened last) :
    Narrows pool last where
  free place remains := first.free place (second.free place remains)
  used room used left := by
    rcases second.used room used left with ⟨free, seats⟩ | ⟨other, present, same, left⟩
    · exact .inl ⟨first.free _ free, seats⟩
    · rw [← same]
      exact first.used other present left

theorem denies (narrows : Narrows pool opened) (denies : Denies needs pool) : Denies needs opened :=
  fun place remains => denies place (narrows.free place remains)

theorem refuses (narrows : Narrows pool opened) (refuses : Refuses needs pool) : Refuses needs opened := by
  refine ⟨narrows.denies refuses.1, ?_⟩
  intro room used left
  rcases narrows.used room used left with ⟨free, seats⟩ | ⟨other, present, same, left⟩
  · exact unsatisfied (refuses.1 _ free) seats
  · rw [← same]
    exact refuses.2 other present left

end Narrows

theorem step_narrows (step : Step threshold before entry after) : Narrows before.pool after.pool := by
  cases step with
  | seat offered => exact (Narrows.offer offered).trans (.update (fun _ => rfl) fun _ => Nat.sub_le ..)
  | alone => exact .take _
  | short => exact .refl _
  | echo offered => exact (Narrows.offer offered).trans (.update (fun _ => rfl) fun _ => Nat.zero_le _)
  | keep => exact .take _

theorem run_narrows (run : Run threshold before entries after) : Narrows before.pool after.pool := by
  induction run with
  | done => exact .refl _
  | next first _ ih => exact (step_narrows first).trans ih

def Shared (pool : Pool) : Prop := ∀ room ∈ pool.used, 0 < room.seatsLeft → room.sittings ≠ []

private theorem shared_elsewhere (offered : Offers pool place opened) (shared : Shared pool) {room : UsedRoom}
    (used : room ∈ opened.used) (elsewhere : room.place.position ≠ place.position)
    (left : 0 < room.seatsLeft) : room.sittings ≠ [] := by
  cases offered with
  | inUse => exact shared room used left
  | opened free =>
    rcases List.mem_append.mp used with used | used
    · exact shared room used left
    · obtain rfl := List.mem_singleton.mp used
      exact absurd rfl elsewhere

theorem step_shared (step : Step threshold before entry after) (shared : Shared before.pool) :
    Shared after.pool := by
  cases step with
  | seat offered =>
    intro room used left
    obtain ⟨other, present, rfl⟩ := List.mem_map.mp used
    split
    · simp only
      split
      · rename_i contained
        exact List.ne_nil_of_mem (List.contains_iff_mem.mp contained)
      · simp
    · rename_i elsewhere
      rw [if_neg elsewhere] at left
      exact shared_elsewhere offered shared present elsewhere left
  | alone => exact shared
  | short => exact shared
  | echo offered =>
    intro room used left
    obtain ⟨other, present, rfl⟩ := List.mem_map.mp used
    split at left
    · exact absurd left (Nat.lt_irrefl _)
    · rename_i elsewhere
      rw [if_neg elsewhere]
      exact shared_elsewhere offered shared present elsewhere left
  | keep => exact shared

private theorem largestFree?_eq_none : pool.largestFree? needs = none ↔ Denies needs pool := by
  simp [Pool.largestFree?, Denies]

private theorem smallestFree?_eq_none : pool.smallestFree? needs = none ↔ Denies needs pool := by
  simp [Pool.smallestFree?, Denies]

theorem roomForNormal?_none {smallResidual duration students : Nat}
    (none : Round.roomForNormal? pool smallResidual needs duration students = none) : Denies needs pool := by
  unfold Round.roomForNormal? at none
  simp only at none
  split at none
  · cases none
  · exact largestFree?_eq_none.mp (Option.map_eq_none_iff.mp none)

private theorem withSpaceFor?_eq_none {ancode : Ancode} (shared : Shared pool) :
    pool.withSpaceFor? ancode needs = none ↔
      ∀ room ∈ pool.used, 0 < room.seatsLeft → needs.satisfiedBy room.place.room = false := by
  have roomy (room : UsedRoom) : room ∈ pool.used.filter (fun used =>
      0 < used.seatsLeft && needs.satisfiedBy used.place.room) ↔
        room ∈ pool.used ∧ 0 < room.seatsLeft ∧ needs.satisfiedBy room.place.room = true := by
    simp [List.mem_filter]
  unfold Pool.withSpaceFor?
  simp only
  constructor
  · intro none room used left
    split at none
    · cases none
    · have unshared := List.find?_eq_none.mp (Option.map_eq_none_iff.mp none)
      rw [← Bool.not_eq_true]
      intro suits
      have empty := unshared room ((roomy room).mpr ⟨used, left, suits⟩)
      simp [shared room used left] at empty
  · intro refused
    have nowhere : pool.used.filter (fun used =>
        0 < used.seatsLeft && needs.satisfiedBy used.place.room) = [] := by
      rw [List.eq_nil_iff_forall_not_mem]
      intro room member
      obtain ⟨used, left, suits⟩ := (roomy room).mp member
      rw [refused room used left] at suits
      cases suits
    rw [nowhere]
    rfl

theorem roomForExtended?_eq_none {ancode : Ancode} (shared : Shared pool) :
    Round.roomForExtended? pool ancode needs = none ↔ Refuses needs pool := by
  have fresh : pool.freshSmallest? needs = none ↔ Denies needs pool :=
    Option.map_eq_none_iff.trans smallestFree?_eq_none
  rw [Refuses, ← fresh, ← @withSpaceFor?_eq_none pool needs ancode shared, Round.roomForExtended?]
  cases pool.withSpaceFor? ancode needs <;> simp

theorem takeSmallest?_eq_none : pool.takeSmallest? needs = none ↔ Denies needs pool :=
  Option.map_eq_none_iff.trans smallestFree?_eq_none

def reasonFor (records : List Accommodation) (student : StudentId) : ShortfallReason :=
  match Grant.of records student with
  | .nothing => .noCompatibleRoom
  | .extraTime _ => .noSeatForExtendedTime
  | .roomAlone _ => .noRoomToSitAlone

/-- What has to be so when students of an exam are turned away. -/
def Denied (reason : ShortfallReason) (exam : Exam) (pool : Pool) : Prop :=
  match reason with
  | .noCompatibleRoom => Denies (.ofExam exam) pool
  | .noSeatForExtendedTime => Refuses (.ofExam exam) pool
  | .noRoomToSitAlone => Denies (RoomNeeds.ofExam exam).withAccessible pool

theorem Narrows.denied (narrows : Narrows pool opened) (denied : Denied reason exam pool) :
    Denied reason exam opened := by
  cases reason with
  | noCompatibleRoom => exact narrows.denies denied
  | noSeatForExtendedTime => exact narrows.refuses denied
  | noRoomToSitAlone => exact narrows.denies denied

end Timetable.Proofs.SeatReasons
