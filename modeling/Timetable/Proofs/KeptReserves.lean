import Timetable.Proofs.PinnedStudents
import Timetable.Proofs.PinsAgain

/-! Rooms in reserve come from two sides, from pins and from the end of a slot, and neither looks at the
other. Each side gives an exam at most what it should, so an exam has one room too many only if it is pinned
to a reserve and large enough to be given another. -/

namespace Timetable.Proofs.KeptReserves
open SeatEntries SeatPool SeatingSteps SeatingPhases SlotRounds SeatedStudents SeatReasons SeatMoves PinsAgain Returned

variable {allocator : Allocator} {records : List Accommodation} {pinned pins : List Seating}
  {blocked : List Block} {slot : Slot} {exams : List Exam} {exam : Exam} {agenda : Agenda Exam} {plan : RoomPlan}
  {before after start round : Round} {pin : Seating} {ancode : Ancode} {threshold minStudents : Nat}
  {demand : Demand}

def reserveOf (slot : Slot) (ancode : Ancode) (entry : Seating) : Bool :=
  entry.reserve && inSlot slot ancode entry

def headCount (records : List Accommodation) (exam : Exam) : Nat :=
  (exam.registrants.filter fun student => Grant.of records student = .nothing).length

/-- Whether an exam is to have a room in reserve. -/
def deserves (records : List Accommodation) (minStudents : Nat) (exam : Exam) : Bool :=
  minStudents ≠ 0 && minStudents ≤ headCount records exam

def Counted (records : List Accommodation) (demands : List Demand) : Prop :=
  ∀ demand ∈ demands, demand.normalTotal = headCount records demand.exam

theorem start_counted (started : allocator.start records blocked slot exams = .ok start) :
    Counted records start.demands := by
  obtain ⟨demands, listed, started⟩ := bind_ok started
  obtain rfl := pure_ok started
  intro demand member
  obtain ⟨exam, -, returned⟩ := exists_item listed member
  obtain ⟨extended, -, returned⟩ := bind_ok returned
  obtain ⟨alone, -, returned⟩ := bind_ok returned
  obtain rfl := pure_ok returned
  rfl

private theorem pin_counted (counted : Counted records before.demands)
    (returned : before.pin threshold pin = .ok after) :
    Counted records after.demands := by
  cases PinnedStudents.pin_effect returned with
  | skipped same => exact same ▸ counted
  | echoed _ demands => exact demands ▸ counted
  | @seated demand index seats _ present _ demands =>
    rw [demands]
    intro other member
    rcases List.mem_or_eq_of_mem_set member with kept | rfl
    · exact counted other kept
    · have whole := counted demand (List.mem_of_getElem? present)
      unfold drawn
      split
      · exact whole
      · exact whole

private theorem counted_accommodated {demands others : List Demand} (counted : Counted records others)
    (same : demands.map accommodated = others.map accommodated) : Counted records demands := by
  intro demand member
  obtain ⟨other, listed, alike⟩ := List.mem_map.mp (same ▸ List.mem_map_of_mem member)
  have total : other.normalTotal = demand.normalTotal := congrArg (·.normalTotal) alike
  have exam : other.exam = demand.exam := congrArg (·.exam) alike
  rw [← total, ← exam]
  exact counted other listed

/-- A pin leaves the reserves as they are, or it is a reserve and is added to them. -/
theorem pin_reserves (returned : before.pin threshold pin = .ok after) :
    ∃ echoed, after.seatings.filter (·.reserve) = before.seatings.filter (·.reserve) ++ echoed ∧
      echoed.Sublist ([pin].filter (·.reserve)) := by
  rcases pin_cases returned with ⟨rfl, -⟩ | ⟨demand, index, place, pool, -, -, -, done⟩
  · exact ⟨[], (List.append_nil _).symm, List.nil_sublist _⟩
  · rcases done with ⟨-, rfl⟩ | ⟨-, returned⟩
    · exact ⟨_, List.filter_append .., .refl _⟩
    · rw [pinStudents_eq] at returned
      obtain ⟨blocked, -, rfl⟩ := seat_ok returned
      refine ⟨[], ?_, List.nil_sublist _⟩
      rw [List.append_nil]
      exact merge_other (fun _ => rfl) rfl rfl _

private theorem pins_reserves (returned : pins.foldlM (·.pin threshold ·) before = .ok after) :
    ∃ echoed, after.seatings.filter (·.reserve) = before.seatings.filter (·.reserve) ++ echoed ∧
      echoed.Sublist (pins.filter (·.reserve)) := by
  induction pins generalizing before with
  | nil =>
    cases pure_ok returned
    exact ⟨[], (List.append_nil _).symm, .refl _⟩
  | cons pin rest ih =>
    rw [List.foldlM_cons] at returned
    obtain ⟨middle, first, returned⟩ := bind_ok returned
    obtain ⟨echoed, reserves, own⟩ := pin_reserves first
    obtain ⟨later, final, others⟩ := ih returned
    refine ⟨echoed ++ later, ?_, ?_⟩
    · rw [final, reserves, List.append_assoc]
    · rw [← List.singleton_append, List.filter_append]
      exact own.append others

private theorem kept_deserved {demands : List Demand} {kept : List Seating} (counted : Counted records demands)
    (dues : (kept.map (·.ancode)).Sublist ((demands.filter (isDue minStudents)).map (·.exam.ancode))) :
    (kept.map (·.ancode)).Sublist (((demands.map (·.exam)).filter (deserves records minStudents)).map (·.ancode)) := by
  have same : demands.filter (isDue minStudents) = demands.filter fun demand => deserves records minStudents demand.exam := by
    apply List.filter_congr
    intro demand member
    rw [isDue, deserves, counted demand member]
  rw [same] at dues
  rwa [List.filter_map, List.map_map]

/-- No sitting is a reserve, so only the last phase adds some. -/
theorem phases_reserves {params : RoomParams} (sound : Sound before.pool) (shared : Shared before.pool)
    (sorted : ∀ demand ∈ before.demands, Sorted records demand) (counted : Counted records before.demands)
    (returned : (do
      let round ← before.seatNormals params before.normalCount
      let round ← round.demands.foldlM (Round.seatAccommodated params.longDurationThreshold) round
      return round.keepReserves params.reserveMinStudents : Except Fault Round) = .ok after) :
    ∃ kept, after.seatings.filter (·.reserve) = before.seatings.filter (·.reserve) ++ kept ∧
      (kept.map (·.ancode)).Sublist
        (((before.demands.map (·.exam)).filter (deserves records params.reserveMinStudents)).map (·.ancode)) := by
  obtain ⟨middle, final, normals, timed, first, -, second, -, same, rfl⟩ :=
    phases_moves sound shared sorted returned
  have moves := first.append second
  obtain ⟨kept, keeps, dues⟩ := keepReserves_keeps params.reserveMinStudents final
  refine ⟨kept, ?_, ?_⟩
  · have plain : (normals ++ timed).filter (·.reserve) = [] := by
      rw [List.filter_eq_nil_iff]
      intro entry noted
      simp [(moves.logged entry noted).1]
    have reserved : kept.filter (·.reserve) = kept :=
      List.filter_eq_self.mpr fun entry noted => (keeps.reserves entry noted).1
    rw [keeps.seatings_eq, List.filter_append, moves.run.reserves, plain, reserved, List.append_nil]
  · rw [← exams_of_accommodated same]
    exact kept_deserved (counted_accommodated counted same) dues

private theorem slot_reserves (returned : allocator.allocateSlot records pinned blocked slot exams = .ok round) :
    ∃ echoed kept, round.seatings.filter (·.reserve) = echoed ++ kept ∧
      echoed.Sublist ((pinned.filter (·.slot = slot)).filter (·.reserve)) ∧
      (kept.map (·.ancode)).Sublist
        ((exams.filter (deserves records allocator.params.reserveMinStudents)).map (·.ancode)) := by
  obtain ⟨start, started, returned⟩ := bind_ok returned
  obtain ⟨middle, pins, returned⟩ := bind_ok returned
  have here : ∀ pin ∈ pinned.filter (·.slot = slot), pin.slot = start.slot := by
    intro pin member
    rw [(start_empty started).1]
    exact of_decide_eq_true (List.mem_filter.mp member).2
  obtain ⟨honoured, run, honours⟩ := pins_run (start_sound started) here pins
  obtain ⟨echoed, pinnedReserves, own⟩ := pins_reserves pins
  have shared := run.preserves (fun round => Shared round.pool) step_shared (start_shared started)
  have counted : Counted records middle.demands :=
    foldlM_keeps (fun round => Counted records round.demands)
      (fun _ _ _ counted first => pin_counted counted first) (start_counted started) pins
  obtain ⟨kept, reserves, dues⟩ := phases_reserves (run.sound (start_sound started)) shared
    (pins_sorted (start_sorted started) pins) counted returned
  rw [honours.exams, start_exams started] at dues
  refine ⟨echoed, kept, ?_, own, dues⟩
  rw [reserves, pinnedReserves, (start_empty started).2.1, List.filter_nil, List.nil_append]

private theorem reserveOf_slot (slot : Slot) (ancode : Ancode) (entries : List Seating) :
    entries.filter (reserveOf slot ancode)
      = ((entries.filter (·.slot = slot)).filter (·.reserve)).filter (ofExam ancode) := by
  rw [List.filter_filter, List.filter_filter]
  apply List.filter_congr
  intro entry _
  rw [reserveOf, inSlot_slot, ← Bool.and_assoc, Bool.and_comm entry.reserve]

private theorem single_of_exam {entries : List Seating} (distinct : (entries.map (·.ancode)).Nodup) (ancode : Ancode) :
    (entries.filter (ofExam ancode)).length ≤ 1 := by
  have counted : (entries.map (·.ancode)).count ancode = (entries.filter (ofExam ancode)).length := by
    rw [List.count, List.countP_map, List.countP_eq_length_filter]
    congr 1
  rw [← counted]
  exact List.nodup_iff_count_le_one.mp distinct ancode

section
variable {rooms : List Room} {config : Config} (slots : (agenda.map (·.1)).Nodup)
  (distinct : ∀ item ∈ agenda, (item.2.map (·.ancode)).Nodup)
  (returned : (Allocator.ofConfig rooms config).allocate agenda records pinned = .ok plan)
include slots distinct returned

/-- An exam has the reserves it is pinned to, as far as their rooms can be had, and one more at most. -/
theorem reserves_split (slot : Slot) (ancode : Ancode) :
    ∃ echoed kept, plan.seatings.filter (reserveOf slot ancode) = echoed ++ kept ∧
      echoed.Sublist (pinned.filter (reserveOf slot ancode)) ∧ kept.length ≤ 1 ∧
      (kept ≠ [] → ∃ exams, (slot, exams) ∈ agenda ∧ ∃ exam ∈ exams, exam.ancode = ancode ∧
        deserves records config.rooms.reserveMinStudents exam = true) := by
  by_cases listed : slot ∈ agenda.map (·.1)
  · obtain ⟨⟨_, exams⟩, member, rfl⟩ := List.mem_map.mp listed
    obtain ⟨blocked, round, allocated, seatings, -⟩ := exists_round slots returned member
    obtain ⟨echoed, kept, reserves, own, dues⟩ := slot_reserves allocated
    have ancodes : (kept.map (·.ancode)).Nodup :=
      (distinct _ member).sublist (dues.trans (List.filter_sublist.map _))
    refine ⟨echoed.filter (ofExam ancode), kept.filter (ofExam ancode), ?_, ?_, single_of_exam ancodes ancode, ?_⟩
    · rw [reserveOf_slot, seatings, reserves, List.filter_append]
    · rw [reserveOf_slot]
      exact own.filter _
    · intro some
      obtain ⟨entry, noted⟩ := List.exists_mem_of_ne_nil _ some
      obtain ⟨inside, same⟩ := List.mem_filter.mp noted
      obtain ⟨exam, due, named⟩ := List.mem_map.mp (dues.subset (List.mem_map_of_mem inside))
      obtain ⟨known, large⟩ := List.mem_filter.mp due
      exact ⟨exams, member, exam, known, named.trans (of_decide_eq_true same), large⟩
  · have elsewhere : plan.seatings.filter (·.slot = slot) = [] := by
      rw [List.filter_eq_nil_iff]
      intro entry noted here
      exact listed (of_decide_eq_true here ▸ (plan_slots returned).1 entry noted)
    refine ⟨[], [], ?_, List.nil_sublist _, Nat.zero_le _, absurd rfl⟩
    rw [reserveOf_slot, elsewhere]
    rfl

/-- At most one reserve is added to those an exam is pinned to. If no more than one is pinned, the exam has
more than one only where it is pinned and large enough to have another one kept. -/
theorem one_reserve_unless_both (slot : Slot) (ancode : Ancode) :
    (plan.seatings.filter (reserveOf slot ancode)).length ≤ (pinned.filter (reserveOf slot ancode)).length + 1 ∧
    ((pinned.filter (reserveOf slot ancode)).length ≤ 1 →
      pinned.filter (reserveOf slot ancode) = [] ∨ (∀ exams, (slot, exams) ∈ agenda → ∀ exam ∈ exams,
        exam.ancode = ancode → deserves records config.rooms.reserveMinStudents exam = false) →
      (plan.seatings.filter (reserveOf slot ancode)).length ≤ 1) := by
  obtain ⟨echoed, kept, split, own, one, due⟩ := reserves_split slots distinct returned slot ancode
  have within := own.length_le
  rw [split, List.length_append]
  constructor
  · omega
  · intro single apart
    cases apart with
    | inl unpinned =>
      rw [unpinned, List.length_nil] at within
      omega
    | inr undeserved =>
      have nothing : kept = [] := by
        by_contra some
        obtain ⟨exams, listed, exam, known, same, large⟩ := due some
        rw [undeserved exams listed exam known same] at large
        cases large
      rw [nothing, List.length_nil]
      omega

end

def spareRooms : List Room :=
  [⟨"R1", 2, false, false, false, false⟩, ⟨"R2", 1, false, false, false, false⟩,
    ⟨"R3", 1, false, false, false, false⟩]

def oneRegistrant : Agenda Exam := [(⟨1, 1⟩, [⟨1, "One", "prof", 90, .regular, [⟨"IF", ["a"]⟩], {}⟩])]

def withReserve : List Seating :=
  [⟨⟨1, 1⟩, "R1", 1, 90, ["a"], false, false⟩, ⟨⟨1, 1⟩, "R3", 1, 90, [], false, true⟩]

/-- Where an exam needs two students for a reserve, the pinned reserve is the only one. -/
theorem pinned_reserve_stays_single : ∃ plan,
    (Allocator.ofConfig spareRooms { rooms := { reserveMinStudents := 2 } }).allocate oneRegistrant [] withReserve
      = .ok plan ∧ (plan.seatings.filter (reserveOf ⟨1, 1⟩ 1)).length ≤ 1 := by
  obtain ⟨plan, returned⟩ : ∃ plan, (Allocator.ofConfig spareRooms { rooms := { reserveMinStudents := 2 } }).allocate
      oneRegistrant [] withReserve = .ok plan := ⟨_, rfl⟩
  have slots : (oneRegistrant.map (·.1)).Nodup := by decide
  have distinct : ∀ item ∈ oneRegistrant, (item.2.map (·.ancode)).Nodup := by decide
  obtain ⟨-, bound⟩ := one_reserve_unless_both slots distinct returned ⟨1, 1⟩ 1
  refine ⟨plan, returned, bound (by decide) (.inr ?_)⟩
  intro exams listed exam known _
  obtain ⟨-, rfl⟩ := Prod.mk.inj (List.mem_singleton.mp listed)
  rw [List.mem_singleton.mp known]
  decide

/-- The plan that is made without pins has one reserve. Made again with all its entries as pins it has two. -/
theorem replanned_exam_gets_second_reserve : ∃ first second,
    (Allocator.ofConfig spareRooms { rooms := { reserveMinStudents := 1 } }).allocate oneRegistrant [] [] = .ok first ∧
      (first.seatings.filter (reserveOf ⟨1, 1⟩ 1)).length = 1 ∧
      (Allocator.ofConfig spareRooms { rooms := { reserveMinStudents := 1 } }).allocate oneRegistrant []
        first.seatings = .ok second ∧
      (second.seatings.filter (reserveOf ⟨1, 1⟩ 1)).length = 2 :=
  ⟨_, _, rfl, by decide, rfl, by decide⟩

end Timetable.Proofs.KeptReserves
