import Timetable.Proofs.ScheduledExams
import Timetable.Staffing.Duty

/-! How the duties of one slot are worked out: no room and no reserve gets two of them, and they are sorted so
that any two can be told apart. -/

namespace Timetable.Proofs.RoomDuties
open Staffing

variable {seatings : List Seating} {slot : Slot} {ancode : Ancode} {room : RoomName} {duty : Duty}
  {duties : List Duty} {minRooms : Nat}

def Sits (seatings : List Seating) (slot : Slot) (ancode : Ancode) (room : RoomName) : Prop :=
  ∃ seating ∈ seatings, seating.slot = slot ∧ seating.ancode = ancode ∧ seating.room = room ∧
    seating.room ≠ Room.placeholder ∧ seating.reserve = false

theorem isOccupied_iff {seating : Seating} :
    seating.isOccupied = true ↔ seating.room ≠ Room.placeholder ∧ seating.reserve = false := by
  simp [Seating.isOccupied, Seating.isPlaceholder]

theorem mem_roomsOf : room ∈ roomsOf seatings slot ancode ↔ Sits seatings slot ancode room := by
  rw [roomsOf, Ordering.mem_alphabetical, List.mem_map]
  constructor
  · intro found
    obtain ⟨seating, listed, same⟩ := found
    obtain ⟨member, chosen⟩ := List.mem_filter.mp listed
    simp only [Bool.and_eq_true, decide_eq_true_eq, isOccupied_iff] at chosen
    exact ⟨seating, member, chosen.1.2, chosen.2, same, chosen.1.1⟩
  · intro sits
    obtain ⟨seating, member, here, exam, same, occupied⟩ := sits
    refine ⟨seating, List.mem_filter.mpr ⟨member, ?_⟩, same⟩
    simp only [Bool.and_eq_true, decide_eq_true_eq, isOccupied_iff]
    exact ⟨⟨occupied, here⟩, exam⟩

structure Shift (seatings : List Seating) (slot : Slot) (duties : List Duty) : Prop where
  slot_eq : ∀ duty ∈ duties, duty.slot = slot
  rooms : (duties.map (·.room)).Nodup
  sits : ∀ duty ∈ duties, ∀ room, duty.room = some room → ∀ ancode ∈ duty.exams,
    Sits seatings slot ancode room

theorem Shift.perm {order : List Duty} (shift : Shift seatings slot duties) (same : order.Perm duties) :
    Shift seatings slot order where
  slot_eq duty member := shift.slot_eq duty (same.mem_iff.mp member)
  rooms := (same.map _).nodup_iff.mpr shift.rooms
  sits duty member := shift.sits duty (same.mem_iff.mp member)

theorem longest_spec {durations : List Nat} (filled : durations ≠ []) :
    longest durations ∈ durations ∧ ∀ duration ∈ durations, duration ≤ longest durations := by
  cases durations with
  | nil => exact absurd rfl filled
  | cons first rest =>
    rw [longest, List.foldl_cons, Nat.zero_max]
    exact List.max?_eq_some_iff.mp List.max?_cons'

theorem le_longest {durations : List Nat} {duration : Nat} (listed : duration ∈ durations) :
    duration ≤ longest durations :=
  (longest_spec (List.ne_nil_of_mem listed)).2 duration listed

private theorem roomDuties_rooms (slot : Slot) (seatings : List Seating) :
    (roomDuties slot seatings).map (·.room) = (alphabetical (seatings.map (·.room))).map some := by
  rw [roomDuties, List.map_map]
  rfl

theorem mem_reserveDuties : duty ∈ reserveDuties slot duties minRooms ↔
    (0 < minRooms ∧ minRooms ≤ duties.length) ∧ duty = ⟨slot, none, longest (duties.map (·.duration)), []⟩ := by
  unfold reserveDuties
  split
  next enough => simp [enough]
  next few => simp [few]

private theorem reserveDuties_rooms (slot : Slot) (duties : List Duty) (minRooms : Nat) :
    ((reserveDuties slot duties minRooms).map (·.room)).Nodup := by
  unfold reserveDuties
  split <;> simp

/-- The reserve is the only duty without a room. -/
theorem slotDuties_rooms (minRooms : Nat) (slot : Slot) (seatings : List Seating) :
    ((slotDuties minRooms slot seatings).map (·.room)).Nodup := by
  rw [slotDuties, ((Ordering.stableSort_perm _).map _).nodup_iff, List.map_append, roomDuties_rooms]
  apply List.nodup_append.mpr
  refine ⟨?_, reserveDuties_rooms .., ?_⟩
  · exact (Ordering.alphabetical_nodup _).map (Option.some_injective _)
  · intro name listed other reserve same
    obtain ⟨room, -, rfl⟩ := List.mem_map.mp listed
    obtain ⟨duty, member, rfl⟩ := List.mem_map.mp reserve
    obtain ⟨-, rfl⟩ := mem_reserveDuties.mp member
    cases same

private theorem roomIsAtMost_total (a b : Option RoomName) :
    Duty.roomIsAtMost a b = true ∨ Duty.roomIsAtMost b a = true := by
  cases a <;> cases b <;> simp [Duty.roomIsAtMost, String.le_total]

private theorem roomIsAtMost_trans {a b c : Option RoomName} (first : Duty.roomIsAtMost a b = true)
    (second : Duty.roomIsAtMost b c = true) : Duty.roomIsAtMost a c = true := by
  cases a <;> cases b <;> cases c <;> simp_all [Duty.roomIsAtMost]
  exact String.le_trans first second

theorem isAtMost_iff {a b : Duty} : a.isAtMost b = true ↔
    b.duration < a.duration ∨ a.duration = b.duration ∧ Duty.roomIsAtMost a.room b.room = true := by
  simp [Duty.isAtMost]

instance : Std.Total fun a b : Duty => a.isAtMost b = true where
  total a b := by
    rw [isAtMost_iff, isAtMost_iff]
    rcases Nat.lt_trichotomy a.duration b.duration with longer | same | longer
    · exact .inr (.inl longer)
    · exact (roomIsAtMost_total a.room b.room).imp (fun rooms => .inr ⟨same, rooms⟩)
        (fun rooms => .inr ⟨same.symm, rooms⟩)
    · exact .inl (.inl longer)

instance : IsTrans Duty fun a b => a.isAtMost b = true where
  trans a b c := by
    intro first second
    rw [isAtMost_iff] at first second ⊢
    rcases first with longer | ⟨same, first⟩
    · left
      omega
    · rcases second with longer | ⟨alike, second⟩
      · left
        omega
      · exact .inr ⟨same.trans alike, roomIsAtMost_trans first second⟩

theorem slotDuties_sorted (minRooms : Nat) (slot : Slot) (seatings : List Seating) :
    (slotDuties minRooms slot seatings).Pairwise fun first second => first.isAtMost second = true :=
  Ordering.stableSort_pairwise _

end Timetable.Proofs.RoomDuties
