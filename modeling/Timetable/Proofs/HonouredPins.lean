import Timetable.Proofs.ExhaustedRooms
import Timetable.Proofs.PinnedEntries

/-! Pins are honoured in a plan. Which pins can be is read off the plan: the rooms that are blocked in a slot are
those of its long accommodated sittings in the slot before. -/

namespace Timetable.Proofs.HonouredPins
open SeatingSteps SlotRounds RoomsAgain ClosedRooms Chronology ExhaustedRooms PinLedger PinnedEntries Returned

variable {allocator : Allocator} {records : List Accommodation} {pinned : List Seating} {blocked others : List Block}
  {slot : Slot} {exams : List Exam} {agenda : Agenda Exam} {plan : RoomPlan} {keep : Seating → Bool}
  {rooms : List Room} {config : Config} {pin : Seating}

/-- A room is blocked in a slot if it was so at first or if an entry blocks it. -/
def Blocked (allocator : Allocator) (blocked : List Block) (seatings : List Seating) (block : Block) : Prop :=
  block ∈ blocked ∨ ∃ entry ∈ seatings,
    Adds allocator.params.longDurationThreshold (Place.ofRooms allocator.rooms) entry block

/-- The pins to keep are those that are heard in their slot, given what the plan blocks there. -/
def Tells (allocator : Allocator) (pinned : List Seating) (keep : Seating → Bool) (blocked : List Block)
    (agenda : Agenda Exam) (seatings : List Seating) : Prop :=
  ∀ item ∈ agenda, ∀ others : List Block,
    (∀ position, (position, item.1) ∈ others ↔ Blocked allocator blocked seatings (position, item.1)) →
      ∀ pin ∈ pinned, pin.slot = item.1 → (keep pin = true ↔ Heard allocator others item.1 item.2 pin)

/-- Pins that are not heard can be left out of an allocation, and the others are honoured in each slot. -/
theorem allocateFrom_honoured (named : (allocator.rooms.map (·.name)).Nodup) (chronological : Chronological agenda)
    (returned : allocator.allocateFrom records pinned blocked agenda = .ok plan)
    (tells : Tells allocator pinned keep blocked agenda plan.seatings) :
    allocator.allocateFrom records (pinned.filter keep) blocked agenda = .ok plan ∧
      ∀ slot exams, (slot, exams) ∈ agenda → Honoured allocator.rooms exams
        (ledger allocator.rooms records exams [] ((pinned.filter (·.slot = slot)).filter keep))
        (plan.seatings.filter (·.slot = slot)) (plan.shortfalls.filter (·.slot = slot)) := by
  induction agenda generalizing blocked plan with
  | nil => exact ⟨returned, fun _ _ none => by cases none⟩
  | cons item rest ih =>
    obtain ⟨slot, exams⟩ := item
    obtain ⟨round, first, returned⟩ := bind_ok returned
    obtain ⟨later, following, returned⟩ := bind_ok returned
    obtain rfl := pure_ok returned
    obtain ⟨start, middle, honoured, entries, seats⟩ := exists_seats first
    obtain ⟨ahead, chronological⟩ := chronological_cons.mp chronological
    have parted := rounds_parted first following fun listed => (ahead slot listed).ne rfl
    have heard : ∀ pin ∈ pinned, pin.slot = slot → (keep pin = true ↔ Heard allocator blocked slot exams pin) := by
      refine tells _ List.mem_cons_self blocked fun position => ⟨.inl, ?_⟩
      rintro (before | ⟨entry, member, adds⟩)
      · exact before
      · have earlier := adds_later adds
        rcases List.mem_append.mp member with member | member
        · exact absurd (seats.seating_slots entry member) earlier.ne
        · exact absurd earlier (ahead _ ((plan_slots following).1 entry member)).asymm
    have tells : Tells allocator pinned keep round.blocked rest later.seatings := by
      intro item listed others same
      refine tells item (List.mem_cons_of_mem _ listed) others fun position => (same position).trans ?_
      rw [Blocked, Blocked, mem_blocked seats named, or_assoc]
      simp only [List.mem_append, or_and_right, exists_or]
    obtain ⟨again, here⟩ := slot_honoured named heard first
    obtain ⟨likewise, there⟩ := ih chronological following tells
    constructor
    · unfold Allocator.allocateFrom
      rw [ok_bind again, ok_bind likewise]
      rfl
    · intro other sits listed
      rcases List.mem_cons.mp listed with same | listed
      · obtain ⟨rfl, rfl⟩ := Prod.mk.inj same
        rw [parted.here, parted.missing]
        exact here
      · have inside : other ∈ rest.map (·.1) := List.mem_map_of_mem listed
        rw [parted.there other inside, parted.elsewhere other inside]
        exact there other sits listed

/-- A pin that can be honoured: its exam is in its slot and its room is one of the inventory which no override
closes there and which no long accommodated sitting of the slot before blocks. -/
structure Honourable (rooms : List Room) (config : Config) (agenda : Agenda Exam) (plan : RoomPlan) (pin : Seating) :
    Prop where
  sits : ∃ item ∈ agenda, item.1 = pin.slot ∧ ∃ exam ∈ item.2, exam.ancode = pin.ancode
  known : ∃ room ∈ rooms, room.name = pin.room
  available : ∀ settings ∈ config.roomOverrides.find? pin.room, pin.slot ∉ settings.unavailableSlots
  unblocked : ∀ other ∈ plan.seatings, other.room = pin.room → other.reserve = false → other.accommodated = true →
    config.rooms.longDurationThreshold < other.duration → pin.slot ≠ ⟨other.slot.day, other.slot.number + 1⟩

instance (rooms : List Room) (config : Config) (agenda : Agenda Exam) (plan : RoomPlan) (pin : Seating) :
    Decidable (Honourable rooms config agenda plan pin) :=
  decidable_of_iff (_ ∧ _ ∧ _ ∧ _) ⟨fun ⟨sits, known, available, unblocked⟩ => ⟨sits, known, available, unblocked⟩,
    fun can => ⟨can.sits, can.known, can.available, can.unblocked⟩⟩

/-- What can be honoured by the plan is what is heard in the slot. -/
theorem honourable_iff (named : (rooms.map (·.name)).Nodup) (chronological : Chronological agenda)
    (returned : (Allocator.ofConfig rooms config).allocate agenda records pinned = .ok plan)
    (listed : (slot, exams) ∈ agenda) (here : pin.slot = slot)
    (same : ∀ position, (position, slot) ∈ others ↔
      Blocked (Allocator.ofConfig rooms config) [] plan.seatings (position, slot)) :
    Honourable rooms config agenda plan pin ↔ Heard (Allocator.ofConfig rooms config) others slot exams pin := by
  subst here
  have distinct := ofConfig_named named config
  constructor
  · rintro ⟨⟨item, member, own, exam, sits, ancode⟩, known, available, unblocked⟩
    obtain rfl := Lookups.eq_of_key chronological.slots member listed own
    obtain ⟨place, known, name⟩ := exists_place_iff.mpr known
    refine ⟨⟨exam, sits, ancode⟩, place, ⟨known, fun closed => ?_, fun blocked => ?_⟩, name⟩
    · obtain ⟨settings, found, lists⟩ := (closed_iff distinct known).mp closed
      exact available settings (name ▸ found) lists
    · obtain ⟨other, noted, adds⟩ := ((same _).mp blocked).resolve_left List.not_mem_nil
      obtain ⟨plain, ⟨accommodated, long⟩, room, next⟩ := (adds_at known).mp adds
      exact unblocked other noted (room.trans name) plain accommodated long (next_iff.mp next).2
  · rintro ⟨⟨exam, sits, ancode⟩, place, ⟨known, available, unblocked⟩, name⟩
    refine ⟨⟨_, listed, rfl, exam, sits, ancode⟩, exists_place_iff.mp ⟨place, known, name⟩, ?_, ?_⟩
    · intro settings found lists
      exact available ((closed_iff distinct known).mpr ⟨settings, name ▸ found, lists⟩)
    · intro other noted room plain accommodated long follows
      obtain ⟨next, found⟩ := plan_next chronological.slots returned noted plain ⟨accommodated, long⟩
      obtain rfl := follows.trans (next_iff.mp found).2.symm
      have adds := (adds_at known).mpr ⟨plain, ⟨accommodated, long⟩, room.trans name.symm, found⟩
      exact unblocked ((same _).mpr (.inr ⟨other, noted, adds⟩))

/-- Pins are honoured as far as seats allow. An allocation is the same without the pins that cannot be honoured,
and in each slot the others are echoed or keep their students as the ledger of the slot tells. -/
theorem pins_are_honoured (named : (rooms.map (·.name)).Nodup) (chronological : Chronological agenda)
    (returned : (Allocator.ofConfig rooms config).allocate agenda records pinned = .ok plan) :
    (Allocator.ofConfig rooms config).allocate agenda records
        (pinned.filter (Honourable rooms config agenda plan ·)) = .ok plan ∧
      ∀ slot exams, (slot, exams) ∈ agenda → Honoured (Allocator.inventory rooms config.roomOverrides) exams
        (ledger (Allocator.inventory rooms config.roomOverrides) records exams []
          ((pinned.filter (·.slot = slot)).filter (Honourable rooms config agenda plan ·)))
        (plan.seatings.filter (·.slot = slot)) (plan.shortfalls.filter (·.slot = slot)) := by
  refine allocateFrom_honoured (ofConfig_named named config) chronological returned ?_
  intro item listed others same pin _ here
  rw [decide_eq_true_iff]
  exact honourable_iff named chronological returned listed here same

def pinFor (room : RoomName) (students : List StudentId) (reserve : Bool) : Seating :=
  { slot := ⟨1, 1⟩, room, ancode := 1, duration := 90, students, accommodated := false, reserve }

/-- Three students for two seats, a room to be filled, a reserve, a student for the room of the reserve, and one
for a room that nobody knows. -/
def fivePins : List Seating :=
  [pinFor "R1" ["a", "b", "c"] false, pinFor "R2" [] false, pinFor "R3" [] true, pinFor "R3" ["d"] false,
    pinFor "R9" ["a"] false]

def threeRooms : List Room := [plainRoom "R1" 5, plainRoom "R2" 2, plainRoom "R3" 3]

def fewerSeats : Config := { roomOverrides := [("R1", { seats := some 2 })] }

def examOfFour : Agenda Exam := [(⟨1, 1⟩, [{ examOf 1 "a" with registrations := [⟨"IF", ["a", "b", "c", "d"]⟩] }])]

theorem five_pins_are_honoured :
    ∃ plan, (Allocator.ofConfig threeRooms fewerSeats).allocate examOfFour [] fivePins = .ok plan ∧
      plan.seatings = [pinFor "R1" ["a", "b"] false, pinFor "R2" ["c", "d"] false, pinFor "R3" [] true,
        pinFor "R3" [] false] ∧
      fivePins.filter (Honourable threeRooms fewerSeats examOfFour plan ·) = fivePins.take 4 ∧
      (Allocator.ofConfig threeRooms fewerSeats).allocate examOfFour []
        (fivePins.filter (Honourable threeRooms fewerSeats examOfFour plan ·)) = .ok plan ∧
      ∀ slot exams, (slot, exams) ∈ examOfFour →
        Honoured (Allocator.inventory threeRooms fewerSeats.roomOverrides) exams
          (ledger (Allocator.inventory threeRooms fewerSeats.roomOverrides) [] exams []
            ((fivePins.filter (·.slot = slot)).filter (Honourable threeRooms fewerSeats examOfFour plan ·)))
          (plan.seatings.filter (·.slot = slot)) (plan.shortfalls.filter (·.slot = slot)) := by
  have named : (threeRooms.map (·.name)).Nodup := by decide
  have chronological : Chronological examOfFour := by decide
  obtain ⟨plan, returned, seatings, chosen⟩ : ∃ plan,
      (Allocator.ofConfig threeRooms fewerSeats).allocate examOfFour [] fivePins = .ok plan ∧
        plan.seatings = [pinFor "R1" ["a", "b"] false, pinFor "R2" ["c", "d"] false, pinFor "R3" [] true,
          pinFor "R3" [] false] ∧
        fivePins.filter (Honourable threeRooms fewerSeats examOfFour plan ·) = fivePins.take 4 :=
    ⟨_, rfl, by decide, by decide⟩
  exact ⟨plan, returned, seatings, chosen, pins_are_honoured named chronological returned⟩

end Timetable.Proofs.HonouredPins
