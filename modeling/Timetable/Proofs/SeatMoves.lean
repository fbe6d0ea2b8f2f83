import Timetable.Proofs.SeatReasons

/-! How students are seated once the pins are through, move by move. A move tells who shares a room, who
has one alone, and who is turned away for which reason. -/

namespace Timetable.Proofs.SeatMoves
open SeatDemands SeatEntries SeatPool SeatingSteps SeatingPhases SeatReasons Returned

variable {pool opened : Pool} {place : Place} {needs : RoomNeeds} {threshold : Nat} {before middle after : Round}
  {entry : Seating} {entries : List Seating} {exam : Exam} {demand : Demand} {records : List Accommodation}
  {exams : List Exam} {params : RoomParams} {index count : Nat}

inductive Turn (records : List Accommodation) (exam : Exam) (before : Round) (entry : Seating)
    (after : Round) : Prop where
  /-- They share a room that suits the exam, none of them sits alone. -/
  | shared {place : Place} (held : Holds before.pool place) (room : entry.room = place.room.name)
      (used : ∃ room ∈ after.pool.used, room.place = place)
      (suits : (RoomNeeds.ofExam exam).satisfiedBy place.room = true)
      (company : ∀ student ∈ entry.students, reasonFor records student ≠ .noRoomToSitAlone)
      (shortfalls : after.shortfalls = before.shortfalls)
  /-- One of them has a free room alone. -/
  | alone {place : Place} {student : StudentId} (free : place ∈ before.pool.free)
      (roomy : 0 < place.room.seats) (room : entry.room = place.room.name) (taken : after.pool = before.pool.take place)
      (single : entry.students = [student]) (needed : reasonFor records student = .noRoomToSitAlone)
      (shortfalls : after.shortfalls = before.shortfalls)
  /-- They find no room, and the rooms are the reason. -/
  | short {reason : ShortfallReason} (room : entry.room = Room.placeholder) (unchanged : after.pool = before.pool)
      (denied : Denied reason exam before.pool)
      (reasons : ∀ student ∈ entry.students, reasonFor records student = reason)
      (shortfalls : after.shortfalls
        = before.shortfalls ++ [⟨before.slot, exam.ancode, entry.students.length, reason⟩])

structure Sorted (records : List Accommodation) (demand : Demand) : Prop where
  normal : ∀ student ∈ demand.normal, reasonFor records student = .noCompatibleRoom
  extended : ∀ timed ∈ demand.extended, reasonFor records timed.student = .noSeatForExtendedTime
  alone : ∀ timed ∈ demand.alone, reasonFor records timed.student = .noRoomToSitAlone

structure Move (records : List Accommodation) (threshold : Nat) (exam : Exam) (before : Round) (entry : Seating)
    (after : Round) : Prop where
  ancode : entry.ancode = exam.ancode
  plain : entry.reserve = false
  filled : entry.students ≠ []
  step : Step threshold before entry after
  turn : Turn records exam before entry after

inductive Moves (records : List Accommodation) (threshold : Nat) (exams : List Exam) :
    Round → List Seating → Round → Prop where
  | done (round : Round) : Moves records threshold exams round [] round
  | next {before middle after : Round} {entry : Seating} {entries : List Seating} {exam : Exam}
      (known : exam ∈ exams) (first : Move records threshold exam before entry middle)
      (rest : Moves records threshold exams middle entries after) :
      Moves records threshold exams before (entry :: entries) after

namespace Moves

theorem single (known : exam ∈ exams) (move : Move records threshold exam before entry after) :
    Moves records threshold exams before [entry] after :=
  .next known move (.done after)

theorem append {later : List Seating} (first : Moves records threshold exams before entries middle)
    (rest : Moves records threshold exams middle later after) :
    Moves records threshold exams before (entries ++ later) after := by
  induction first with
  | done => exact rest
  | next known move _ ih => exact .next known move (ih rest)

theorem run (moves : Moves records threshold exams before entries after) :
    Run threshold before entries after := by
  induction moves with
  | done => exact .done _
  | next _ move _ ih => exact .next move.step ih

theorem shared (moves : Moves records threshold exams before entries after) (shared : Shared before.pool) :
    Shared after.pool := by
  induction moves with
  | done => exact shared
  | next _ move _ ih => exact ih (step_shared move.step shared)

theorem logged (moves : Moves records threshold exams before entries after) :
    ∀ entry ∈ entries, entry.reserve = false ∧ entry.students ≠ [] ∧
      ∃ exam ∈ exams, exam.ancode = entry.ancode := by
  induction moves with
  | done => simp
  | next known move _ ih =>
    exact List.forall_mem_cons.mpr ⟨⟨move.plain, move.filled, _, known, move.ancode.symm⟩, ih⟩

end Moves

theorem compatible_suits (compatible : Pool.isCompatible needs place = true) :
    needs.satisfiedBy place.room = true := by
  simp only [Pool.isCompatible, Bool.and_eq_true] at compatible
  exact compatible.2

private theorem withSpaceFor?_suits {ancode : Ancode} (found : pool.withSpaceFor? ancode needs = some place) :
    needs.satisfiedBy place.room = true := by
  have roomy : ∃ room, room.place = place ∧ room ∈ pool.used.filter fun used =>
      0 < used.seatsLeft && needs.satisfiedBy used.place.room := by
    simp only [Pool.withSpaceFor?] at found
    split at found
    · rename_i room chosen
      exact ⟨room, Option.some.inj found, List.mem_of_find?_eq_some chosen⟩
    · obtain ⟨room, chosen, same⟩ := Option.map_eq_some_iff.mp found
      exact ⟨room, same, List.mem_of_find?_eq_some chosen⟩
  obtain ⟨room, rfl, chosen⟩ := roomy
  have fitting := (List.mem_filter.mp chosen).2
  simp only [Bool.and_eq_true] at fitting
  exact fitting.2

theorem roomForExtended?_spec {ancode : Ancode} (sound : Sound pool)
    (found : Round.roomForExtended? pool ancode needs = some (place, opened)) :
    Offers pool place opened ∧ 0 < opened.seatsLeft place ∧ needs.satisfiedBy place.room = true := by
  unfold Round.roomForExtended? at found
  split at found
  · rename_i used
    obtain ⟨rfl, rfl⟩ : _ = place ∧ pool = opened := by simpa using found
    have suits := withSpaceFor?_suits used
    obtain ⟨room, present, rfl, roomy⟩ := withSpaceFor_used used
    exact ⟨.inUse present, by rw [sound.seatsLeft_used present]; exact roomy, suits⟩
  · obtain ⟨first, smallest, same⟩ := Option.map_eq_some_iff.mp found
    obtain ⟨rfl, rfl⟩ := Prod.mk.injEq .. ▸ same
    obtain ⟨free, seats⟩ := smallestFree?_mem smallest
    obtain ⟨offered, roomy⟩ := offers_opened sound free seats
    exact ⟨offered, roomy, compatible_suits (List.find?_some smallest)⟩

/-- Students who are seated in a room they are offered share it. -/
theorem seat_move {demands : List Demand} {sitting : Sitting} {students : List StudentId} {count : Nat}
    {accommodated : Bool} (offered : Offers before.pool place opened) (counted : students.length = count)
    (fits : count ≤ opened.seatsLeft place) (some : students ≠ [])
    (suits : (RoomNeeds.ofExam exam).satisfiedBy place.room = true) (ancode : sitting.ancode = exam.ancode)
    (company : ∀ student ∈ students, reasonFor records student ≠ .noRoomToSitAlone)
    (returned : Round.seat { before with demands, pool := opened.occupy place sitting count } threshold place
      sitting students accommodated = .ok after) :
    ∃ entry, entry.accommodated = accommodated ∧ entry.students = students ∧
      Move records threshold exam before entry after ∧ after.demands = demands := by
  obtain ⟨step, same, shortfalls, -⟩ := seat_step offered counted fits returned
  have used : ∃ room ∈ after.pool.used, room.place = place := by
    obtain ⟨blocked, -, rfl⟩ := seat_ok returned
    obtain ⟨room, used, rfl⟩ := offered.exists_used
    refine ⟨_, List.mem_map_of_mem used, ?_⟩
    simp
  refine ⟨_, rfl, rfl, ⟨ancode, rfl, some, step, ?_⟩, same⟩
  exact .shared offered.holds rfl used suits company shortfalls

def seatFirst (before : Round) (demand : Demand) (index : Nat) (place : Place) (pool : Pool) (count : Nat) : Round :=
  { before with
    demands := before.demands.set index (demand.dropNormal count)
    pool := pool.occupy place ⟨demand.exam.ancode, demand.exam.duration⟩ count
    seatings := Round.merge ⟨before.slot, place.room.name, demand.exam.ancode, demand.exam.duration,
      demand.firstNormal count, false, false⟩ before.seatings }

def turnAway (before : Round) (demand : Demand) (index : Nat) : Round :=
  Round.fallShort { before with demands := before.demands.set index (demand.dropNormal demand.normal.length) }
    ⟨demand.exam.ancode, demand.exam.duration⟩ demand.normal .noCompatibleRoom

inductive Pass (params : RoomParams) (before : Round) (demand : Demand) (index : Nat) : Round → Prop where
  /-- A small rest joins exams of its duration in a room that seats all of it. -/
  | joined {room : UsedRoom} (used : room ∈ before.pool.used) (few : demand.normal.length < params.smallResidual)
      (fits : demand.normal.length ≤ room.seatsLeft) (company : room.sittings ≠ [])
      (alike : ∀ sitting ∈ room.sittings, sitting.duration = demand.exam.duration)
      (suits : (RoomNeeds.ofExam demand.exam).satisfiedBy room.place.room = true) :
      Pass params before demand index
        (seatFirst before demand index room.place before.pool demand.normal.length)
  /-- As many as it seats get a free room. -/
  | opened {place : Place} (free : place ∈ before.pool.free) (roomy : 0 < place.room.seats)
      (suits : (RoomNeeds.ofExam demand.exam).satisfiedBy place.room = true) :
      Pass params before demand index
        (seatFirst before demand index place (before.pool.openRoom place) (min place.room.seats demand.normal.length))
  /-- No room suits. -/
  | away (denies : Denies (.ofExam demand.exam) before.pool) :
      Pass params before demand index (turnAway before demand index)

/-- Normal students who are given a room sit in it: nothing is blocked, so nothing can fault. -/
theorem seat_normal {round : Round} {threshold : Nat} {place : Place} {sitting : Sitting} {students : List StudentId} :
    round.seat threshold place sitting students false = .ok { round with
      seatings := Round.merge ⟨round.slot, place.room.name, sitting.ancode, sitting.duration, students, false,
        false⟩ round.seatings } := by
  have short : ¬ ((false : Bool) ∧ threshold < sitting.duration) := fun long => Bool.false_ne_true long.1
  rw [Round.seat, if_neg short]
  rfl

/-- A pass always returns, and it does one of the three. -/
theorem seatNormal_pass (params : RoomParams) (sound : Sound before.pool) (demand : Demand) (index : Nat) :
    ∃ after, before.seatNormal params demand index = .ok after ∧ Pass params before demand index after := by
  unfold Round.seatNormal Round.roomForNormal?
  dsimp only
  split
  · rename_i place pool found
    refine ⟨_, seat_normal, ?_⟩
    split at found
    · rename_i shared
      obtain ⟨rfl, rfl⟩ : _ = place ∧ before.pool = pool := by simpa using found
      split at shared
      · rename_i few
        obtain ⟨room, used, rfl, fits, company, alike, suits⟩ := shareable?_spec shared
        rw [sound.seatsLeft_used used, Nat.min_eq_right fits]
        exact .joined used few fits company alike suits
      · cases shared
    · obtain ⟨first, largest, same⟩ := Option.map_eq_some_iff.mp found
      obtain ⟨rfl, rfl⟩ := Prod.mk.inj same
      have free := List.mem_of_find?_eq_some largest
      have compatible := List.find?_some largest
      simp only [Pool.isCompatible, Bool.and_eq_true, decide_eq_true_eq] at compatible
      rw [openRoom_seats sound free]
      exact .opened free compatible.1 compatible.2
  · rename_i none
    exact ⟨_, rfl, .away (roomForNormal?_none none)⟩

theorem Pass.of_returned (sound : Sound before.pool) (returned : before.seatNormal params demand index = .ok after) :
    Pass params before demand index after := by
  obtain ⟨other, same, pass⟩ := seatNormal_pass params sound demand index
  obtain rfl := Except.ok.inj (returned.symm.trans same)
  exact pass

/-- The first normal students of a demand share the room they are offered. -/
theorem seatFirst_move (index : Nat) (offered : Offers before.pool place opened) (fits : count ≤ opened.seatsLeft place)
    (enough : count ≤ demand.normal.length) (some : 0 < count)
    (suits : (RoomNeeds.ofExam demand.exam).satisfiedBy place.room = true) (sorted : Sorted records demand) :
    ∃ entry, entry.accommodated = false ∧ entry.students = demand.firstNormal count ∧
      Move records threshold demand.exam before entry (seatFirst before demand index place opened count) := by
  have counted : (demand.firstNormal count).length = count := by
    rw [Demand.firstNormal, List.length_take, Nat.min_eq_left enough]
  have company : ∀ student ∈ demand.firstNormal count, reasonFor records student ≠ .noRoomToSitAlone := by
    intro student first
    rw [sorted.normal student (List.mem_of_mem_take first)]
    decide
  have returned : Round.seat { before with
      demands := before.demands.set index (demand.dropNormal count)
      pool := opened.occupy place ⟨demand.exam.ancode, demand.exam.duration⟩ count } threshold place
        ⟨demand.exam.ancode, demand.exam.duration⟩ (demand.firstNormal count) false
          = .ok (seatFirst before demand index place opened count) := seat_normal
  obtain ⟨entry, plain, students, move, -⟩ := seat_move offered counted fits
    (List.ne_nil_of_length_pos (counted.symm ▸ some)) suits rfl company returned
  exact ⟨entry, plain, students, move⟩

theorem Pass.move (pass : Pass params before demand index after) (sound : Sound before.pool)
    (waiting : demand.normal ≠ []) (sorted : Sorted records demand) :
    ∃ entry count, (entry.accommodated = false ∧ ∀ student ∈ entry.students, student ∈ demand.normal) ∧
      Move records params.longDurationThreshold demand.exam before entry after ∧
      after.demands = before.demands.set index (demand.dropNormal count) := by
  have wanted := List.length_pos_iff.mpr waiting
  cases pass with
  | joined used few fits company alike suits =>
    rw [← sound.seatsLeft_used used] at fits
    obtain ⟨entry, plain, students, move⟩ := seatFirst_move index (.inUse used) fits (Nat.le_refl _) wanted suits sorted
    exact ⟨entry, _, ⟨plain, students ▸ fun _ => List.mem_of_mem_take⟩, move, rfl⟩
  | opened free roomy suits =>
    obtain ⟨entry, plain, students, move⟩ := seatFirst_move index (.opened free)
      (openRoom_seats sound free ▸ Nat.min_le_left ..) (Nat.min_le_right ..) (Nat.lt_min.mpr ⟨roomy, wanted⟩) suits sorted
    exact ⟨entry, _, ⟨plain, students ▸ fun _ => List.mem_of_mem_take⟩, move, rfl⟩
  | away denies =>
    have denied : Denied .noCompatibleRoom demand.exam before.pool := denies
    exact ⟨⟨before.slot, Room.placeholder, demand.exam.ancode, demand.exam.duration, demand.normal, false, false⟩, _,
      ⟨rfl, fun _ => id⟩, ⟨rfl, rfl, waiting, .short rfl rfl rfl rfl, .short rfl rfl denied sorted.normal rfl⟩, rfl⟩

private theorem seatExtended_move {timed : TimedStudent} (sound : Sound before.pool) (shared : Shared before.pool)
    (extended : reasonFor records timed.student = .noSeatForExtendedTime)
    (returned : before.seatExtended threshold exam timed = .ok after) :
    ∃ entry, entry.students = [timed.student] ∧ Move records threshold exam before entry after ∧
      after.demands = before.demands := by
  unfold Round.seatExtended at returned
  simp only at returned
  split at returned
  · rename_i place pool found
    obtain ⟨offered, roomy, suits⟩ := roomForExtended?_spec sound found
    have company : ∀ student ∈ [timed.student], reasonFor records student ≠ .noRoomToSitAlone := by
      intro student single
      rw [List.mem_singleton.mp single, extended]
      decide
    obtain ⟨entry, -, students, move, demands⟩ := seat_move offered List.length_singleton roomy
      (List.cons_ne_nil _ _) suits rfl company returned
    exact ⟨entry, students, move, demands⟩
  · rename_i none
    obtain rfl := Except.ok.inj returned
    have denied : Denied .noSeatForExtendedTime exam before.pool := (roomForExtended?_eq_none shared).mp none
    refine ⟨_, rfl, ⟨rfl, rfl, List.cons_ne_nil _ _, .short rfl rfl rfl rfl, .short rfl rfl denied ?_ rfl⟩, rfl⟩
    intro student single
    rwa [List.mem_singleton.mp single]

private theorem seatAlone_move {timed : TimedStudent}
    (alone : reasonFor records timed.student = .noRoomToSitAlone)
    (returned : before.seatAlone threshold exam timed = .ok after) :
    ∃ entry, entry.students = [timed.student] ∧ Move records threshold exam before entry after ∧
      after.demands = before.demands := by
  unfold Round.seatAlone at returned
  simp only at returned
  split at returned
  · rename_i place pool found
    obtain ⟨free, rfl, seats⟩ := takeSmallest_ok found
    obtain ⟨blocked, blocks, rfl⟩ := seat_ok returned
    refine ⟨_, rfl, ⟨rfl, rfl, List.cons_ne_nil _ _, .alone free seats rfl rfl rfl rfl blocks, ?_⟩, rfl⟩
    exact .alone free seats rfl rfl rfl alone rfl
  · rename_i none
    obtain rfl := Except.ok.inj returned
    have denied : Denied .noRoomToSitAlone exam before.pool := takeSmallest?_eq_none.mp none
    refine ⟨_, rfl, ⟨rfl, rfl, List.cons_ne_nil _ _, .short rfl rfl rfl rfl, .short rfl rfl denied ?_ rfl⟩, rfl⟩
    intro student single
    rwa [List.mem_singleton.mp single]

def accommodated (demand : Demand) : Demand := { demand with normal := [] }

theorem accommodated_set {demands : List Demand} {index count : Nat} (present : demands[index]? = some demand) :
    (demands.set index (demand.dropNormal count)).map accommodated = demands.map accommodated := by
  obtain ⟨front, back, split, replaced⟩ := exists_split present
  rw [replaced, split, List.map_append, List.map_append, List.map_cons, List.map_cons]
  rfl

theorem exams_of_accommodated {demands others : List Demand}
    (same : demands.map accommodated = others.map accommodated) :
    demands.map (·.exam) = others.map (·.exam) := by
  simpa [Function.comp_def, accommodated] using congrArg (List.map Demand.exam) same

private theorem sorted_set {demands : List Demand} {index count : Nat} (present : demands[index]? = some demand)
    (sorted : ∀ demand ∈ demands, Sorted records demand) :
    ∀ other ∈ demands.set index (demand.dropNormal count), Sorted records other := by
  intro other member
  rcases List.mem_or_eq_of_mem_set member with member | rfl
  · exact sorted other member
  · have before := sorted demand (List.mem_of_getElem? present)
    exact ⟨fun student kept => before.normal student (List.mem_of_mem_drop kept), before.extended, before.alone⟩

theorem seatNormals_moves {params : RoomParams} {steps : Nat} (sound : Sound before.pool)
    (sorted : ∀ demand ∈ before.demands, Sorted records demand)
    (returned : before.seatNormals params steps = .ok after) :
    ∃ entries, Moves records params.longDurationThreshold (before.demands.map (·.exam)) before entries after ∧
      (∀ entry ∈ entries, entry.accommodated = false ∧ ∀ student ∈ entry.students,
        reasonFor records student = .noCompatibleRoom ∧ student ∈ remaining entry.ancode before.demands) ∧
      (∀ demand ∈ after.demands, Sorted records demand) ∧
      after.demands.map accommodated = before.demands.map accommodated := by
  induction steps generalizing before with
  | zero =>
    obtain rfl := Except.ok.inj returned
    exact ⟨[], .done _, nofun, sorted, rfl⟩
  | succ steps ih =>
    unfold Round.seatNormals at returned
    split at returned
    · obtain rfl := Except.ok.inj returned
      exact ⟨[], .done _, nofun, sorted, rfl⟩
    · rename_i demand index urgent
      obtain ⟨middle, first, returned⟩ := bind_ok returned
      obtain ⟨present, waiting⟩ := mostUrgent?_spec urgent
      have listed := List.mem_of_getElem? present
      obtain ⟨entry, count, normal, move, demands⟩ :=
        Pass.move (.of_returned sound first) sound waiting (sorted demand listed)
      obtain ⟨entries, moves, normals, settled, same⟩ := ih (move.step.sound sound)
        (demands ▸ sorted_set present sorted) returned
      have own : ∀ student ∈ entry.students, reasonFor records student = .noCompatibleRoom ∧
          student ∈ remaining entry.ancode before.demands := by
        intro student seated
        have normal := normal.2 student seated
        refine ⟨(sorted demand listed).normal student normal, mem_remaining.mpr ⟨demand, listed, ?_, ?_⟩⟩
        · exact move.ancode.symm
        · exact List.mem_append_left _ normal
      have others : ∀ entry ∈ entries, entry.accommodated = false ∧ ∀ student ∈ entry.students,
          reasonFor records student = .noCompatibleRoom ∧ student ∈ remaining entry.ancode before.demands := by
        intro other member
        obtain ⟨plain, students⟩ := normals other member
        refine ⟨plain, fun student seated => ⟨(students student seated).1, ?_⟩⟩
        have waiting := (students student seated).2
        have kept : (demand.dropNormal count).exam = demand.exam := rfl
        rw [demands] at waiting
        refine mem_remaining_of_set present kept (fun student left => ?_) waiting
        rw [pending_drop demand count]
        exact List.mem_append_right _ left
      rw [demands] at moves same
      rw [accommodated_set present] at same
      rw [exams_of_accommodated (accommodated_set present)] at moves
      exact ⟨entry :: entries, .next (List.mem_map_of_mem listed) move moves,
        List.forall_mem_cons.mpr ⟨⟨normal.1, own⟩, others⟩, settled, same⟩

/-- A fold whose steps are moves is one row of moves. -/
theorem foldlM_moves {α : Type} {f : Round → α → Except Fault Round} {items : List α}
    {kind : Seating → Prop} (sound : Sound before.pool) (shared : Shared before.pool)
    (step : ∀ item ∈ items, ∀ before after, Sound before.pool → Shared before.pool → f before item = .ok after →
      ∃ entries, Moves records threshold exams before entries after ∧ (∀ entry ∈ entries, kind entry) ∧
        after.demands = before.demands)
    (returned : items.foldlM f before = .ok after) :
    ∃ entries, Moves records threshold exams before entries after ∧ (∀ entry ∈ entries, kind entry) ∧
      after.demands = before.demands := by
  induction items generalizing before with
  | nil =>
    obtain rfl := pure_ok returned
    exact ⟨[], .done _, nofun, rfl⟩
  | cons item items ih =>
    rw [List.foldlM_cons] at returned
    obtain ⟨middle, first, returned⟩ := bind_ok returned
    obtain ⟨entries, moves, each, same⟩ := step item List.mem_cons_self _ _ sound shared first
    obtain ⟨later, rest, others, unchanged⟩ := ih (moves.run.sound sound) (moves.shared shared)
      (fun other member => step other (List.mem_cons_of_mem _ member)) returned
    exact ⟨entries ++ later, moves.append rest, List.forall_mem_append.mpr ⟨each, others⟩,
      unchanged.trans same⟩

/-- Nobody of the students of an entry is a normal one. -/
def Granted (records : List Accommodation) (entry : Seating) : Prop :=
  ∀ student ∈ entry.students, reasonFor records student ≠ .noCompatibleRoom

private theorem seatAccommodated_moves (sound : Sound before.pool) (shared : Shared before.pool)
    (known : demand.exam ∈ exams) (sorted : Sorted records demand)
    (returned : before.seatAccommodated threshold demand = .ok after) :
    ∃ entries, Moves records threshold exams before entries after ∧ (∀ entry ∈ entries, Granted records entry) ∧
      after.demands = before.demands := by
  have granted {entry : Seating} {timed : TimedStudent} (students : entry.students = [timed.student])
      (reason : reasonFor records timed.student ≠ .noCompatibleRoom) :
      ∀ other ∈ [entry], Granted records other := by
    intro other single student seated
    rw [List.mem_singleton.mp single, students] at seated
    rwa [List.mem_singleton.mp seated]
  obtain ⟨middle, first, returned⟩ := bind_ok returned
  obtain ⟨entries, moves, each, same⟩ := foldlM_moves sound shared
    (fun timed member _ _ sound shared returned => by
      have reason := sorted.extended timed member
      obtain ⟨entry, students, move, same⟩ := seatExtended_move sound shared reason returned
      exact ⟨_, .single known move, granted students (by rw [reason]; decide), same⟩) first
  obtain ⟨later, rest, others, unchanged⟩ := foldlM_moves (moves.run.sound sound) (moves.shared shared)
    (fun timed member _ _ _ _ returned => by
      have reason := sorted.alone timed member
      obtain ⟨entry, students, move, same⟩ := seatAlone_move reason returned
      exact ⟨_, .single known move, granted students (by rw [reason]; decide), same⟩) returned
  exact ⟨entries ++ later, moves.append rest, List.forall_mem_append.mpr ⟨each, others⟩, unchanged.trans same⟩

private theorem timed_granted {percentOf? : StudentId → Option Nat} {entries : List TimedStudent}
    (returned : Demand.timed exam percentOf? = .ok entries) :
    ∀ timed ∈ entries, (percentOf? timed.student).isSome = true := by
  intro timed member
  have listed := List.mem_map_of_mem (f := (·.student)) member
  rw [timed_students returned] at listed
  exact (List.mem_filter.mp listed).2

theorem sorted_ofExam (returned : Demand.ofExam records exam = .ok demand) : Sorted records demand := by
  obtain ⟨extended, timed, returned⟩ := bind_ok returned
  obtain ⟨alone, single, returned⟩ := bind_ok returned
  obtain rfl := pure_ok returned
  constructor
  · intro student normal
    have granted := of_decide_eq_true (List.mem_filter.mp normal).2
    rw [reasonFor, granted]
  · intro other member
    have granted := timed_granted timed other member
    cases grant : Grant.of records other.student <;> simp [grant] at granted
    rw [reasonFor, grant]
  · intro other member
    have granted := timed_granted single other member
    cases grant : Grant.of records other.student <;> simp [grant] at granted
    rw [reasonFor, grant]

/-- The phases after the pins: moves for normal students, moves for accommodated ones, and the reserves. -/
theorem phases_moves {params : RoomParams} (sound : Sound before.pool) (shared : Shared before.pool)
    (sorted : ∀ demand ∈ before.demands, Sorted records demand)
    (returned : (do
      let round ← before.seatNormals params before.normalCount
      let round ← round.demands.foldlM (Round.seatAccommodated params.longDurationThreshold) round
      return round.keepReserves params.reserveMinStudents : Except Fault Round) = .ok after) :
    ∃ middle final seated timed,
      Moves records params.longDurationThreshold (before.demands.map (·.exam)) before seated middle ∧
      (∀ entry ∈ seated, ∀ student ∈ entry.students, reasonFor records student = .noCompatibleRoom) ∧
      Moves records params.longDurationThreshold (before.demands.map (·.exam)) middle timed final ∧
      (∀ entry ∈ timed, Granted records entry) ∧
      final.demands.map accommodated = before.demands.map accommodated ∧
      after = final.keepReserves params.reserveMinStudents := by
  obtain ⟨middle, normals, returned⟩ := bind_ok returned
  obtain ⟨final, others, returned⟩ := bind_ok returned
  obtain ⟨seated, first, plain, settled, same⟩ := seatNormals_moves sound sorted normals
  have listed := exams_of_accommodated same
  obtain ⟨timed, second, granted, unchanged⟩ := foldlM_moves (first.run.sound sound) (first.shared shared)
    (fun demand member _ _ sound shared returned =>
      seatAccommodated_moves sound shared (listed ▸ List.mem_map_of_mem member) (settled demand member) returned) others
  refine ⟨middle, final, seated, timed, first, ?_, second, granted, unchanged ▸ same, (pure_ok returned).symm⟩
  intro entry noted student sits
  exact ((plain entry noted).2 student sits).1

end Timetable.Proofs.SeatMoves
