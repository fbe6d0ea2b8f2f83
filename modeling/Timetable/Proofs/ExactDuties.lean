import Timetable.Proofs.RoomDuties

/-! What the duties of a room plan are. The description speaks of the entries of the plan and not of their
order, and one agenda alone fits it, so the order in which rooms are planned does not matter to staff. -/

namespace Timetable.Proofs.ExactDuties
open Staffing RoomDuties Chronology

variable {plan : Set Seating} {seatings inside : List Seating} {minRooms : Nat} {slot : Slot} {room : RoomName}
  {duty : Duty} {duties others : List Duty} {agenda other : Agenda Duty}

/-- An entry for which somebody has to be in the slot: it has a real room that is not only kept free. -/
def TakesPlace (slot : Slot) (seating : Seating) : Prop :=
  seating.slot = slot ∧ seating.room ≠ Room.placeholder ∧ seating.reserve = false

/-- The longest sitting of those that are chosen from a plan. -/
structure IsLongest (plan : Set Seating) (chosen : Seating → Prop) (duration : Nat) : Prop where
  reached : ∃ seating ∈ plan, chosen seating ∧ seating.duration = duration
  atMost : ∀ seating ∈ plan, chosen seating → seating.duration ≤ duration

structure Covers (plan : Set Seating) (slot : Slot) (room : RoomName) (duty : Duty) : Prop where
  longest : IsLongest plan (fun seating => TakesPlace slot seating ∧ seating.room = room) duty.duration
  exams : ∀ ancode, ancode ∈ duty.exams ↔
    ∃ seating ∈ plan, TakesPlace slot seating ∧ seating.room = room ∧ seating.ancode = ancode
  ascending : duty.exams.Pairwise (· < ·)

/-- Longer duties are ahead of shorter ones; of those that last as long rooms are ahead of the reserve, and in
the order of their names. -/
def Ahead (first second : Duty) : Prop :=
  second.duration < first.duration ∨ first.duration = second.duration ∧
    ∃ name, first.room = some name ∧ ∀ other, second.room = some other → name < other

def roomsIn (duties : List Duty) : List RoomName := duties.filterMap (·.room)

/-- The duties of one slot of a plan, where slots with `minRooms` rooms have a reserve unless that is zero. -/
structure ExactSlot (plan : Set Seating) (minRooms : Nat) (slot : Slot) (duties : List Duty) : Prop where
  slot_eq : ∀ duty ∈ duties, duty.slot = slot
  once : (duties.map (·.room)).Nodup
  rooms : ∀ room, room ∈ roomsIn duties ↔ ∃ seating ∈ plan, TakesPlace slot seating ∧ seating.room = room
  covers : ∀ duty ∈ duties, ∀ room, duty.room = some room → Covers plan slot room duty
  reserve : (∃ duty ∈ duties, duty.room = none) ↔ 0 < minRooms ∧ minRooms ≤ (roomsIn duties).length
  reserved : ∀ duty ∈ duties, duty.room = none → IsLongest plan (TakesPlace slot) duty.duration ∧ duty.exams = []
  sorted : duties.Pairwise Ahead

/-- The duties of a plan: those of the slots in which something takes place, in the order of time. -/
structure Exact (plan : Set Seating) (minRooms : Nat) (agenda : Agenda Duty) : Prop where
  slots : ∀ slot, slot ∈ agenda.map (·.1) ↔ ∃ seating ∈ plan, TakesPlace slot seating
  chronological : Chronological agenda
  each : ∀ slot duties, (slot, duties) ∈ agenda → ExactSlot plan minRooms slot duties

section
/-! Nothing else fits the description. -/

theorem IsLongest.unique {chosen : Seating → Prop} {duration length : Nat} (first : IsLongest plan chosen duration)
    (second : IsLongest plan chosen length) : duration = length := by
  obtain ⟨longest, listed, here, rfl⟩ := first.reached
  obtain ⟨another, present, there, rfl⟩ := second.reached
  exact Nat.le_antisymm (second.atMost longest listed here) (first.atMost another present there)

private theorem eq_of_ascending {ns ms : List Nat} (first : ns.Pairwise (· < ·)) (second : ms.Pairwise (· < ·))
    (same : ∀ n, n ∈ ns ↔ n ∈ ms) : ns = ms := by
  have alike : ns.Perm ms := (List.perm_ext_iff_of_nodup (first.imp Nat.ne_of_lt) (second.imp Nat.ne_of_lt)).mpr same
  apply alike.eq_of_pairwise _ first second
  intro n m _ _ less more
  exact absurd more (Nat.lt_asymm less)

theorem Covers.unique {twin : Duty} (first : Covers plan slot room duty) (second : Covers plan slot room twin) :
    duty.duration = twin.duration ∧ duty.exams = twin.exams := by
  refine ⟨first.longest.unique second.longest, eq_of_ascending first.ascending second.ascending ?_⟩
  intro ancode
  exact (first.exams ancode).trans (second.exams ancode).symm

theorem Ahead.asymm {first second : Duty} (ahead : Ahead first second) : ¬ Ahead second first := by
  intro behind
  rcases ahead with longer | ⟨same, name, room, first⟩
  · rcases behind with shorter | ⟨same, -⟩ <;> omega
  · rcases behind with shorter | ⟨-, other, reserved, second⟩
    · omega
    · exact String.lt_asymm (first other reserved) (second name room)

private theorem mem_roomsIn : room ∈ roomsIn duties ↔ ∃ duty ∈ duties, duty.room = some room := List.mem_filterMap

private theorem ExactSlot.roomsIn_nodup (exact : ExactSlot plan minRooms slot duties) : (roomsIn duties).Nodup := by
  have once := exact.once
  rw [List.Nodup, List.pairwise_map] at once
  apply List.Pairwise.filterMap _ _ once
  intro first second apart name here other there same
  exact apart (here.trans ((congrArg some same).trans there.symm))

theorem ExactSlot.length_eq (first : ExactSlot plan minRooms slot duties) (second : ExactSlot plan minRooms slot others) :
    (roomsIn duties).length = (roomsIn others).length := by
  apply List.Perm.length_eq
  apply (List.perm_ext_iff_of_nodup first.roomsIn_nodup second.roomsIn_nodup).mpr
  intro room
  exact (first.rooms room).trans (second.rooms room).symm

theorem ExactSlot.mem_of_mem (first : ExactSlot plan minRooms slot duties)
    (second : ExactSlot plan minRooms slot others) (listed : duty ∈ duties) : duty ∈ others := by
  suffices twin : ∃ other ∈ others, other.room = duty.room ∧ duty.duration = other.duration ∧
      duty.exams = other.exams by
    obtain ⟨other, present, room, duration, exams⟩ := twin
    have slots := (first.slot_eq duty listed).trans (second.slot_eq other present).symm
    have same : duty = other := by
      cases duty
      cases other
      simp only [Duty.mk.injEq] at *
      exact ⟨slots, room.symm, duration, exams⟩
    exact same ▸ present
  cases named : duty.room with
  | some room =>
    have occupied := (first.rooms room).mp (mem_roomsIn.mpr ⟨duty, listed, named⟩)
    obtain ⟨other, present, same⟩ := mem_roomsIn.mp ((second.rooms room).mpr occupied)
    exact ⟨other, present, same, (first.covers duty listed room named).unique (second.covers other present room same)⟩
  | none =>
    have enough := first.reserve.mp ⟨duty, listed, named⟩
    rw [first.length_eq second] at enough
    obtain ⟨other, present, same⟩ := second.reserve.mpr enough
    obtain ⟨longest, empty⟩ := first.reserved duty listed named
    obtain ⟨length, nothing⟩ := second.reserved other present same
    exact ⟨other, present, same, longest.unique length, empty.trans nothing.symm⟩

theorem ExactSlot.unique (first : ExactSlot plan minRooms slot duties)
    (second : ExactSlot plan minRooms slot others) : duties = others := by
  have alike : duties.Perm others := by
    apply (List.perm_ext_iff_of_nodup (.of_map _ first.once) (.of_map _ second.once)).mpr
    intro duty
    exact ⟨first.mem_of_mem second, second.mem_of_mem first⟩
  apply alike.eq_of_pairwise _ first.sorted second.sorted
  intro one two _ _ ahead behind
  exact absurd behind ahead.asymm

theorem Exact.mem_of_mem (first : Exact plan minRooms agenda) (second : Exact plan minRooms other)
    {item : Slot × List Duty} (listed : item ∈ agenda) : item ∈ other := by
  have occupied := (first.slots item.1).mp (List.mem_map_of_mem listed)
  obtain ⟨twin, present, slot⟩ := List.mem_map.mp ((second.slots item.1).mpr occupied)
  have here := second.each twin.1 twin.2 present
  rw [slot] at here
  rwa [Prod.ext slot.symm ((first.each item.1 item.2 listed).unique here)]

theorem Exact.unique (first : Exact plan minRooms agenda) (second : Exact plan minRooms other) : agenda = other := by
  apply first.chronological.eq_of_perm second.chronological
  apply (List.perm_ext_iff_of_nodup (.of_map _ first.chronological.slots)
    (.of_map _ second.chronological.slots)).mpr
  intro item
  exact ⟨first.mem_of_mem second, second.mem_of_mem first⟩

end

section
/-! What is worked out from the entries fits it. -/

def Gathered (plan : Set Seating) (slot : Slot) (inside : List Seating) : Prop :=
  ∀ seating, seating ∈ inside ↔ seating ∈ plan ∧ TakesPlace slot seating

private theorem isLongest_longest {chosen : Seating → Prop} {listed : List Seating}
    (all : ∀ seating, seating ∈ listed ↔ seating ∈ plan ∧ chosen seating) (filled : listed ≠ []) :
    IsLongest plan chosen (longest (listed.map (·.duration))) := by
  obtain ⟨attained, bound⟩ := longest_spec (mt List.map_eq_nil_iff.mp filled)
  constructor
  case reached =>
    obtain ⟨seating, member, same⟩ := List.mem_map.mp attained
    obtain ⟨planned, picked⟩ := (all seating).mp member
    exact ⟨seating, planned, picked, same⟩
  case atMost =>
    intro seating planned picked
    exact bound _ (List.mem_map_of_mem ((all seating).mpr ⟨planned, picked⟩))

private theorem roomDuty_covers (gathered : Gathered plan slot inside) (listed : room ∈ inside.map (·.room)) :
    Covers plan slot room (roomDuty slot inside room) := by
  have here (seating : Seating) : seating ∈ inside.filter (·.room = room) ↔
      seating ∈ plan ∧ TakesPlace slot seating ∧ seating.room = room := by
    rw [List.mem_filter, gathered seating, and_assoc, decide_eq_true_iff]
  constructor
  case longest =>
    apply isLongest_longest here
    obtain ⟨seating, member, same⟩ := List.mem_map.mp listed
    exact List.ne_nil_of_mem (List.mem_filter.mpr ⟨member, decide_eq_true same⟩)
  case exams =>
    intro ancode
    simp only [roomDuty, Ordering.mem_ascending, List.mem_map, here, and_assoc]
  case ascending => exact Ordering.ascending_sorted _

private theorem mem_roomDuties : duty ∈ roomDuties slot inside ↔
    ∃ room ∈ inside.map (·.room), duty = roomDuty slot inside room := by
  simp only [roomDuties, List.mem_map, Ordering.mem_alphabetical, eq_comm (b := duty)]

private theorem mem_slotDuties : duty ∈ slotDuties minRooms slot inside ↔
    duty ∈ roomDuties slot inside ∨ duty ∈ reserveDuties slot (roomDuties slot inside) minRooms := by
  rw [slotDuties, Ordering.mem_stableSort, List.mem_append]

private theorem roomsIn_roomDuties (slot : Slot) (inside : List Seating) :
    roomsIn (roomDuties slot inside) = alphabetical (inside.map (·.room)) := by
  rw [roomsIn, roomDuties, List.filterMap_map]
  exact List.filterMap_some

private theorem roomsIn_slotDuties (minRooms : Nat) (slot : Slot) (inside : List Seating) :
    (roomsIn (slotDuties minRooms slot inside)).Perm (roomsIn (roomDuties slot inside)) := by
  have reserve : roomsIn (reserveDuties slot (roomDuties slot inside) minRooms) = [] := by
    apply List.filterMap_eq_nil_iff.mpr
    intro duty listed
    rw [(mem_reserveDuties.mp listed).2]
  have parts : roomsIn (roomDuties slot inside ++ reserveDuties slot (roomDuties slot inside) minRooms)
      = roomsIn (roomDuties slot inside) := by
    rw [roomsIn, List.filterMap_append, ← roomsIn, ← roomsIn, reserve, List.append_nil]
  rw [← parts]
  exact (Ordering.stableSort_perm _).filterMap _

private theorem length_roomDuties (minRooms : Nat) (slot : Slot) (inside : List Seating) :
    (roomDuties slot inside).length = (roomsIn (slotDuties minRooms slot inside)).length := by
  rw [(roomsIn_slotDuties ..).length_eq, roomsIn_roomDuties, roomDuties, List.length_map]

/-- The longest of the duties of all rooms is as long as the longest sitting. -/
theorem reserve_longest (gathered : Gathered plan slot inside) (filled : roomDuties slot inside ≠ []) :
    IsLongest plan (TakesPlace slot) (longest ((roomDuties slot inside).map (·.duration))) := by
  obtain ⟨attained, bound⟩ := longest_spec (mt List.map_eq_nil_iff.mp filled)
  constructor
  case reached =>
    obtain ⟨duty, listed, same⟩ := List.mem_map.mp attained
    obtain ⟨room, occupied, rfl⟩ := mem_roomDuties.mp listed
    obtain ⟨seating, planned, ⟨here, -⟩, long⟩ := (roomDuty_covers gathered occupied).longest.reached
    exact ⟨seating, planned, here, long.trans same⟩
  case atMost =>
    intro seating planned here
    have occupied := List.mem_map_of_mem (f := (·.room)) ((gathered seating).mpr ⟨planned, here⟩)
    have shorter := (roomDuty_covers gathered occupied).longest.atMost seating planned ⟨here, rfl⟩
    exact shorter.trans (bound _ (List.mem_map_of_mem (mem_roomDuties.mpr ⟨_, occupied, rfl⟩)))

private theorem ahead_of_isAtMost {first second : Duty} (atMost : first.isAtMost second = true)
    (apart : first.room ≠ second.room) : Ahead first second := by
  apply (isAtMost_iff.mp atMost).imp id
  intro tied
  obtain ⟨same, rooms⟩ := tied
  refine ⟨same, ?_⟩
  cases one : first.room with
  | none =>
    cases two : second.room with
    | none => exact absurd (one.trans two.symm) apart
    | some other => simp [one, two, Duty.roomIsAtMost] at rooms
  | some name =>
    refine ⟨name, rfl, ?_⟩
    intro other two
    simp only [one, two, Duty.roomIsAtMost, decide_eq_true_eq] at rooms
    apply String.not_le.mp
    intro back
    exact apart (by rw [one, two, String.le_antisymm rooms back])

private theorem slotDuties_exact (gathered : Gathered plan slot inside) (minRooms : Nat) :
    ExactSlot plan minRooms slot (slotDuties minRooms slot inside) := by
  have unroomed {duty : Duty} (listed : duty ∈ slotDuties minRooms slot inside) (nowhere : duty.room = none) :
      duty ∈ reserveDuties slot (roomDuties slot inside) minRooms := by
    apply (mem_slotDuties.mp listed).resolve_left
    intro roomed
    obtain ⟨room, -, rfl⟩ := mem_roomDuties.mp roomed
    cases nowhere
  constructor
  case slot_eq =>
    intro duty listed
    cases mem_slotDuties.mp listed with
    | inl roomed =>
      obtain ⟨room, -, rfl⟩ := mem_roomDuties.mp roomed
      rfl
    | inr reserve =>
      obtain ⟨-, rfl⟩ := mem_reserveDuties.mp reserve
      rfl
  case once => exact slotDuties_rooms ..
  case rooms =>
    intro room
    rw [(roomsIn_slotDuties ..).mem_iff, roomsIn_roomDuties, Ordering.mem_alphabetical, List.mem_map]
    simp only [gathered _, and_assoc]
  case covers =>
    intro duty listed room named
    cases mem_slotDuties.mp listed with
    | inl roomed =>
      obtain ⟨name, occupied, rfl⟩ := mem_roomDuties.mp roomed
      cases named
      exact roomDuty_covers gathered occupied
    | inr reserve =>
      obtain ⟨-, rfl⟩ := mem_reserveDuties.mp reserve
      cases named
  case reserve =>
    rw [← length_roomDuties]
    constructor
    · intro reserve
      obtain ⟨duty, listed, nowhere⟩ := reserve
      exact (mem_reserveDuties.mp (unroomed listed nowhere)).1
    · intro enough
      exact ⟨_, mem_slotDuties.mpr (.inr (mem_reserveDuties.mpr ⟨enough, rfl⟩)), rfl⟩
  case reserved =>
    intro duty listed nowhere
    obtain ⟨enough, rfl⟩ := mem_reserveDuties.mp (unroomed listed nowhere)
    refine ⟨reserve_longest gathered ?_, rfl⟩
    apply List.length_pos_iff.mp
    omega
  case sorted =>
    have once := slotDuties_rooms minRooms slot inside
    rw [List.Nodup, List.pairwise_map] at once
    apply ((slotDuties_sorted minRooms slot inside).and once).imp
    intro first second sorted
    exact ahead_of_isAtMost sorted.1 sorted.2

private theorem duties_gathered (listed : (slot, duties) ∈ Staffing.duties seatings minRooms) :
    ∃ inside, duties = slotDuties minRooms slot inside ∧ Gathered {seating | seating ∈ seatings} slot inside := by
  obtain ⟨⟨other, inside⟩, filed, same⟩ := List.mem_map.mp listed
  cases same
  refine ⟨inside, rfl, ?_⟩
  intro seating
  rw [ScheduledExams.mem_filed filed, List.mem_map, Set.mem_ofPred_eq]
  constructor
  · intro entry
    obtain ⟨other, kept, equal⟩ := entry
    cases equal
    obtain ⟨present, occupied⟩ := List.mem_filter.mp kept
    exact ⟨present, rfl, isOccupied_iff.mp occupied⟩
  · intro here
    obtain ⟨present, rfl, occupied⟩ := here
    exact ⟨seating, List.mem_filter.mpr ⟨present, isOccupied_iff.mpr occupied⟩, rfl⟩

theorem duties_exact (seatings : List Seating) (minRooms : Nat) :
    Exact {seating | seating ∈ seatings} minRooms (Staffing.duties seatings minRooms) := by
  constructor
  case slots =>
    intro slot
    have keys : (Staffing.duties seatings minRooms).map (·.1) = (Agenda.ofEntries
        ((seatings.filter Seating.isOccupied).map fun seating => (seating.slot, seating))).map (·.1) := by
      rw [Staffing.duties, List.map_map]
      rfl
    rw [keys, ScheduledExams.mem_slots_ofEntries, List.map_map, List.mem_map]
    simp only [List.mem_filter, isOccupied_iff, TakesPlace, Function.comp_apply, Set.mem_ofPred_eq]
    constructor
    · intro occupied
      obtain ⟨seating, ⟨present, here⟩, same⟩ := occupied
      exact ⟨seating, present, same, here⟩
    · intro occupied
      obtain ⟨seating, present, same, here⟩ := occupied
      exact ⟨seating, ⟨present, here⟩, same⟩
  case chronological =>
    rw [Chronological, Staffing.duties, List.map_map]
    exact chronological_ofEntries _
  case each =>
    intro slot duties listed
    obtain ⟨inside, rfl, gathered⟩ := duties_gathered listed
    exact slotDuties_exact gathered minRooms

end

/-! What the description says of the duties of a plan, in the form in which staff are given them. -/

theorem duties_slots (seatings : List Seating) (minRooms : Nat) :
    ((Staffing.duties seatings minRooms).map (·.1)).Nodup :=
  (duties_exact seatings minRooms).chronological.slots

theorem duties_sorted (listed : (slot, duties) ∈ Staffing.duties seatings minRooms) :
    duties.Pairwise fun first second => second.duration ≤ first.duration := by
  apply ((duties_exact seatings minRooms).each slot duties listed).sorted.imp
  intro first second ahead
  cases ahead with
  | inl longer => exact Nat.le_of_lt longer
  | inr tied => exact Nat.le_of_eq tied.1.symm

theorem duties_shift (listed : (slot, duties) ∈ Staffing.duties seatings minRooms) :
    Shift seatings slot duties := by
  have exact := (duties_exact seatings minRooms).each slot duties listed
  refine ⟨exact.slot_eq, exact.once, ?_⟩
  intro duty present room named ancode inside
  obtain ⟨seating, planned, ⟨here, occupied⟩, inRoom, found⟩ :=
    ((exact.covers duty present room named).exams ancode).mp inside
  exact ⟨seating, planned, here, found, inRoom, occupied⟩

theorem exists_duty : (∃ duties, (slot, duties) ∈ Staffing.duties seatings minRooms ∧
      ∃ duty ∈ duties, duty.room = some room) ↔
    ∃ seating ∈ seatings, TakesPlace slot seating ∧ seating.room = room := by
  have exact := duties_exact seatings minRooms
  constructor
  · intro watched
    obtain ⟨duties, listed, named⟩ := watched
    exact ((exact.each slot duties listed).rooms room).mp (mem_roomsIn.mpr named)
  · intro occupied
    obtain ⟨seating, planned, here, inRoom⟩ := occupied
    obtain ⟨⟨other, duties⟩, listed, same⟩ := List.mem_map.mp ((exact.slots slot).mpr ⟨seating, planned, here⟩)
    obtain rfl : other = slot := same
    have named := ((exact.each other duties listed).rooms room).mpr ⟨seating, planned, here, inRoom⟩
    exact ⟨duties, listed, mem_roomsIn.mp named⟩

/-- The duties of a plan are the one agenda that fits their description, and however the entries of the plan are
listed, they are the same. -/
theorem duties_are_exact (seatings : List Seating) (minRooms : Nat) :
    (∀ agenda, Exact {seating | seating ∈ seatings} minRooms agenda ↔ agenda = Staffing.duties seatings minRooms) ∧
      ∀ again, seatings.Perm again → Staffing.duties again minRooms = Staffing.duties seatings minRooms := by
  have fits := duties_exact seatings minRooms
  constructor
  · intro agenda
    constructor
    · exact fun exact => exact.unique fits
    · intro same
      rwa [same]
  · intro again same
    have entries : {seating | seating ∈ again} = {seating | seating ∈ seatings} :=
      Set.ext fun _ => same.symm.mem_iff
    have other := duties_exact again minRooms
    rw [entries] at other
    exact other.unique fits

/-- A student with extra time in `R1`, a room that is kept free and one that is missing. -/
def afternoon : List Seating :=
  [⟨⟨1, 2⟩, "R2", 2, 90, ["c"], false, false⟩, ⟨⟨1, 2⟩, "R1", 3, 60, ["d"], false, false⟩,
    ⟨⟨1, 2⟩, "R1", 1, 90, ["a"], true, false⟩, ⟨⟨1, 2⟩, "R3", 1, 120, [], false, true⟩,
    ⟨⟨1, 1⟩, Room.placeholder, 4, 90, ["b"], false, false⟩]

theorem afternoon_in_reverse :
    afternoon.Perm afternoon.reverse ∧ Staffing.duties afternoon.reverse 2 =
      [(⟨1, 2⟩, [⟨⟨1, 2⟩, some "R1", 90, [1, 3]⟩, ⟨⟨1, 2⟩, some "R2", 90, [2]⟩, ⟨⟨1, 2⟩, none, 90, []⟩])] := by
  have reversed : afternoon.Perm afternoon.reverse := (List.reverse_perm _).symm
  have planned : Staffing.duties afternoon 2 =
      [(⟨1, 2⟩, [⟨⟨1, 2⟩, some "R1", 90, [1, 3]⟩, ⟨⟨1, 2⟩, some "R2", 90, [2]⟩, ⟨⟨1, 2⟩, none, 90, []⟩])] := by
    decide +kernel
  exact ⟨reversed, ((duties_are_exact afternoon 2).2 _ reversed).trans planned⟩

end Timetable.Proofs.ExactDuties
