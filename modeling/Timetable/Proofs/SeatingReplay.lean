import Mathlib.Data.List.Flatten
import Timetable.Proofs.RoomCapacity
import Timetable.Proofs.SeatedStudents

/-! A slot whose pins are the entries it was seated with before. Every pin finds its room open and seats
enough, takes its students out of the demands, and is noted as it is; nobody is left after them. -/

namespace Timetable.Proofs.SeatingReplay
open SeatDemands SeatEntries SeatPool SeatingSteps SeatingPhases SlotRounds RoomCapacity Returned

structure Fresh (start : Round) : Prop where
  sound : Sound start.pool
  named : (start.pool.places.map (·.room.name)).Nodup
  distinct : (start.demands.map (·.exam.ancode)).Nodup
  unused : start.pool.used = []
  seatings : start.seatings = []
  shortfalls : start.shortfalls = []

structure Replayable (threshold : Nat) (start : Round) (entries : List Seating) : Prop where
  distinct : (entries.map key).Nodup
  slot : ∀ entry ∈ entries, entry.slot = start.slot
  plain : ∀ entry ∈ entries, entry.reserve = false
  filled : ∀ entry ∈ entries, entry.students ≠ []
  exams : ∀ entry ∈ entries, ∃ exam ∈ start.demands.map (·.exam), exam.ancode = entry.ancode
  housed : ∀ entry ∈ entries, ∃ place, Holds start.pool place ∧ entry.room = place.room.name
  fits : ∀ place ∈ start.pool.places,
    (studentsOf (seatedIn place.room.name) entries).length ≤ place.room.seats
  next : ∀ entry ∈ entries, entry.accommodated ∧ threshold < entry.duration →
    ∃ next, entry.slot.next = .ok next

structure Replays (threshold : Nat) (start : Round) (done : List Seating) (round : Round) : Prop where
  run : Run threshold start done round
  seatings : round.seatings = done
  shortfalls : round.shortfalls = []
  exams : round.demands.map (·.exam) = start.demands.map (·.exam)
  waiting : ∀ ancode, ∀ student ∈ remaining ancode round.demands,
    student ∈ remaining ancode start.demands ∧ student ∉ studentsOf (ofExam ancode) done
  held : ∀ place, Holds round.pool place ↔ Holds start.pool place
  leaves : Leaves (seated round) round.pool

variable {threshold : Nat} {start round : Round} {entries done todo : List Seating} {entry : Seating}
  {demand : Demand} {index : Nat}

/-- Blocks decide which rooms a slot begins with, and nothing after that. -/
theorem Fresh.unblocked (fresh : Fresh start) (blocked : List Block) : Fresh { start with blocked } :=
  ⟨fresh.sound, fresh.named, fresh.distinct, fresh.unused, fresh.seatings, fresh.shortfalls⟩

theorem Replayable.unblocked (old : Replayable threshold start entries) (blocked : List Block) :
    Replayable threshold { start with blocked } entries :=
  ⟨old.distinct, old.slot, old.plain, old.filled, old.exams, old.housed, old.fits, old.next⟩

theorem fresh_fits (fresh : Fresh start) : Fits (charged start) start.pool := by
  have none (name : RoomName) : charged start name = 0 := by
    have below := charged_le start name
    rw [seated, fresh.seatings] at below
    exact Nat.le_zero.mp below
  refine ⟨fun place _ => none place.room.name, ?_, fun place _ => (none place.room.name).le.trans (Nat.zero_le _)⟩
  intro room used
  rw [fresh.unused] at used
  cases used

/-- The entries of a run can be pinned again, as far as they stand for rooms. -/
theorem run_replayable {kind : Seating → Bool} (fresh : Fresh start) (run : Run threshold start entries round)
    (plain : ∀ entry ∈ entries, entry.reserve = false ∧ entry.students ≠ [])
    (exams : ∀ entry ∈ entries, ∃ exam ∈ start.demands.map (·.exam), exam.ancode = entry.ancode)
    (placed : ∀ entry ∈ round.seatings, kind entry = true → entry.room = Room.placeholder → round.shortfalls = []) :
    Replayable threshold start (round.seatings.filter kind) := by
  have logged : ∀ entry ∈ round.seatings, ∃ noted ∈ entries, key noted = key entry := by
    intro entry member
    have listed := run.mem_keys.mp (List.mem_map_of_mem member)
    rw [fresh.seatings] at listed
    exact List.mem_map.mp (listed.resolve_left List.not_mem_nil)
  obtain ⟨distinct, filled⟩ := run.entries_distinct (fun entry noted => (plain entry noted).1)
    (fun entry noted => (plain entry noted).2) (by simp [fresh.seatings])
  constructor
  case distinct => exact distinct.sublist (List.filter_sublist.map _)
  case slot =>
    intro entry member
    obtain ⟨noted, listed, same⟩ := logged entry (List.mem_filter.mp member).1
    exact (congrArg Seating.slot same).symm.trans (run.entry_slot noted listed)
  case plain =>
    intro entry member
    obtain ⟨noted, listed, same⟩ := logged entry (List.mem_filter.mp member).1
    exact (congrArg Seating.reserve same).symm.trans (plain noted listed).1
  case filled => exact fun entry member => filled entry (List.mem_filter.mp member).1
  case exams =>
    intro entry member
    obtain ⟨noted, listed, same⟩ := logged entry (List.mem_filter.mp member).1
    obtain ⟨exam, known, equal⟩ := exams noted listed
    exact ⟨exam, known, equal.trans (ancode_of_key same)⟩
  case housed =>
    intro entry member
    obtain ⟨present, chosen⟩ := List.mem_filter.mp member
    obtain ⟨noted, listed, same⟩ := logged entry present
    have room := room_of_key same
    rcases run.housed fresh.sound noted listed with ⟨place, held, name⟩ | ⟨nowhere, some⟩
    · exact ⟨place, held, room.symm.trans name⟩
    · exact absurd (placed entry present chosen (room.symm.trans nowhere)) some
  case fits =>
    intro place known
    have within := (Run.fits run fresh.sound fresh.named (fresh_fits fresh)).within place (run.places_eq ▸ known)
    unfold charged at within
    split at within
    next nowhere =>
      have none : studentsOf (seatedIn place.room.name) (round.seatings.filter kind) = [] := by
        apply studentsOf_none
        intro entry member here
        obtain ⟨present, chosen⟩ := List.mem_filter.mp member
        simp only [seatedIn, Bool.and_eq_true, decide_eq_true_eq] at here
        exact absurd (placed entry present chosen (here.2.trans nowhere.1)) nowhere.2
      rw [none]
      exact Nat.zero_le _
    next =>
      refine Nat.le_trans (List.Sublist.length_le ?_) within
      exact (List.filter_sublist.filter _).flatMap _
  case next =>
    intro entry member long
    obtain ⟨noted, listed, same⟩ := logged entry (List.mem_filter.mp member).1
    have neighbour := run.exists_next noted listed (plain noted listed).1
    change (key noted).accommodated ∧ _ < (key noted).duration → ∃ next, (key noted).slot.next = _ at neighbour
    rw [same] at neighbour
    exact neighbour long

theorem replays_nothing (fresh : Fresh start) : Replays threshold start [] start where
  run := .done start
  seatings := fresh.seatings
  shortfalls := fresh.shortfalls
  exams := rfl
  waiting _ _ present := ⟨present, by simp⟩
  held _ := .rfl
  leaves room used := by
    rw [fresh.unused] at used
    cases used

/-- A pin that is seated whole leaves only students it does not name. -/
theorem waiting_without {demands : List Demand} {ancode : Ancode} {student : StudentId}
    (distinct : (demands.map (·.exam.ancode)).Nodup) (present : demands[index]? = some demand)
    (exam : demand.exam.ancode = entry.ancode)
    (waiting : student ∈ remaining ancode (demands.set index (demand.without entry.students))) :
    student ∈ remaining ancode demands ∧ student ∉ studentsOf (ofExam ancode) [entry] := by
  have same : (demand.without entry.students).exam = demand.exam := rfl
  refine ⟨mem_remaining_of_set present same
    (fun _ inside => ((mem_pending_without _ _).mp inside).1) waiting, ?_⟩
  by_cases same : entry.ancode = ancode
  · rw [studentsOf_chosen (by simpa [ofExam] using same)]
    obtain ⟨front, back, split, replaced⟩ := exists_split present
    rw [split, List.map_append, List.map_cons, List.nodup_append, List.nodup_cons] at distinct
    obtain ⟨other, member, here, inside⟩ := mem_remaining.mp waiting
    have equal : demand.exam.ancode = other.exam.ancode := exam.trans (same.trans here.symm)
    rw [replaced, List.mem_append, List.mem_cons] at member
    rcases member with member | rfl | member
    · exact absurd equal.symm (distinct.2.2 _ (List.mem_map_of_mem member) _ List.mem_cons_self)
    · exact ((mem_pending_without _ _).mp inside).2
    · exact absurd (equal ▸ List.mem_map_of_mem member) distinct.2.1.1
  · rw [studentsOf_other (by simpa [ofExam] using same)]
    exact List.not_mem_nil

/-- What is still to be pinned for a room fits into the seats it has left. -/
theorem roomy (fresh : Fresh start) (replayable : Replayable threshold start (done ++ entry :: todo))
    (replays : Replays threshold start done round) {place : Place} {pool : Pool}
    (offered : Offers round.pool place pool) (room : entry.room = place.room.name) :
    entry.students.length ≤ pool.seatsLeft place := by
  have sound := replays.run.sound fresh.sound
  have known : place ∈ start.pool.places := replays.run.places_eq ▸ offered.known sound
  have fits := replayable.fits place known
  obtain ⟨used, present, rfl⟩ := offered.exists_used
  have left := replays.leaves.offer offered used present
  have own : studentsOf (seatedIn used.place.room.name) [entry] = entry.students :=
    studentsOf_chosen (by simp [seatedIn, room, replayable.plain entry (by simp)])
  rw [studentsOf_append, studentsOf_cons entry todo, own, List.length_append, List.length_append] at fits
  rw [seated, replays.seatings] at left
  rw [(offered.sound sound).seatsLeft_used present]
  omega

private theorem drawn_whole {seats : Nat} (filled : entry.students ≠ []) (fits : entry.students.length ≤ seats) :
    drawn demand entry seats = (entry.students, demand.without entry.students) := by
  unfold drawn
  rw [if_neg (by simp [filled]), List.take_of_length_le fits]

theorem exists_demand {demands : List Demand} {ancode : Ancode}
    (known : ∃ exam ∈ demands.map (·.exam), exam.ancode = ancode) :
    ∃ demand index, demands.zipIdx.find? (·.1.exam.ancode = ancode) = some (demand, index) := by
  obtain ⟨exam, listed, same⟩ := known
  obtain ⟨demand, member, rfl⟩ := List.mem_map.mp listed
  obtain ⟨index, inside⟩ := List.getElem?_of_mem member
  have some : (demands.zipIdx.find? (·.1.exam.ancode = ancode)).isSome :=
    List.find?_isSome.mpr ⟨_, List.mk_mem_zipIdx_iff_getElem?.mpr inside, by simpa using same⟩
  obtain ⟨⟨other, place⟩, found⟩ := Option.isSome_iff_exists.mp some
  exact ⟨other, place, found⟩

private theorem pin_replay (fresh : Fresh start) (replayable : Replayable threshold start (done ++ entry :: todo))
    (replays : Replays threshold start done round) :
    ∃ after, round.pin threshold entry = .ok after ∧ Replays threshold start (done ++ [entry]) after := by
  have member : entry ∈ done ++ entry :: todo := by simp
  have plain := replayable.plain entry member
  have sound := replays.run.sound fresh.sound
  have here : entry.slot = round.slot := (replayable.slot entry member).trans replays.run.slot_eq.symm
  obtain ⟨demand, index, found⟩ := exists_demand (replays.exams ▸ replayable.exams entry member)
  have present := List.mk_mem_zipIdx_iff_getElem?.mp (List.mem_of_find?_eq_some found)
  have exam : demand.exam.ancode = entry.ancode := by simpa using List.find?_some found
  obtain ⟨place, held, room⟩ := replayable.housed entry member
  have held := (replays.held place).mpr held
  obtain ⟨pool, opened⟩ := exists_named (replays.run.places_eq ▸ fresh.named)
    (held.known sound) held
  obtain ⟨offered, -⟩ := offers_named sound opened
  have fits := roomy fresh replayable replays offered room
  have next : entry.accommodated ∧ threshold < entry.duration → ∃ next, round.slot.next = .ok next :=
    here ▸ replayable.next entry member
  obtain ⟨after, returned⟩ : ∃ after, Round.seat { round with
      demands := round.demands.set index (demand.without entry.students)
      pool := pool.occupy place ⟨entry.ancode, entry.duration⟩ entry.students.length }
      threshold place ⟨entry.ancode, entry.duration⟩ entry.students entry.accommodated = .ok after :=
    exists_seat next
  obtain ⟨step, demands, shortfalls, holds⟩ := seat_step offered rfl fits returned
  have same : (⟨round.slot, place.room.name, entry.ancode, entry.duration, entry.students,
      entry.accommodated, false⟩ : Seating) = entry := by
    rw [← here, ← room, ← plain]
  rw [same] at step
  refine ⟨after, ?_, ?_⟩
  · rw [Round.pin, found]
    simp only [room, opened, plain, pinStudents_eq, drawn_whole (replayable.filled entry member) fits]
    exact returned
  · have absent : key entry ∉ done.map key := by
      have distinct := replayable.distinct
      rw [List.map_append, List.map_cons, List.nodup_append] at distinct
      exact fun inside => distinct.2.2 _ inside _ List.mem_cons_self rfl
    have apart : (round.demands.map (·.exam.ancode)).Nodup := by
      have equal : round.demands.map (·.exam.ancode) = start.demands.map (·.exam.ancode) := by
        simpa [Function.comp_def] using congrArg (List.map Exam.ancode) replays.exams
      exact equal ▸ fresh.distinct
    refine ⟨replays.run.append (.single step), ?_, shortfalls.trans replays.shortfalls, ?_, ?_, ?_, ?_⟩
    · rw [step.seatings_eq plain, replays.seatings, merge_fresh plain absent]
    · have kept : (demand.without entry.students).exam = demand.exam := rfl
      rw [demands]
      exact (exams_set present kept).trans replays.exams
    · intro ancode student waiting
      rw [demands] at waiting
      obtain ⟨before, unnamed⟩ := waiting_without apart present exam waiting
      obtain ⟨first, others⟩ := replays.waiting ancode student before
      rw [studentsOf_append, List.mem_append]
      exact ⟨first, not_or.mpr ⟨others, unnamed⟩⟩
    · exact fun other => (holds other).trans ((offered.holds_iff sound).trans (replays.held other))
    · exact Step.leaves step plain sound replays.leaves

theorem pins_replay (fresh : Fresh start) (replays : Replays threshold start done round)
    (replayable : Replayable threshold start (done ++ todo)) :
    ∃ after, todo.foldlM (·.pin threshold ·) round = .ok after ∧
      Replays threshold start (done ++ todo) after := by
  induction todo generalizing done round with
  | nil => exact ⟨round, rfl, by simpa using replays⟩
  | cons entry todo ih =>
    obtain ⟨middle, first, replays⟩ := pin_replay fresh replayable replays
    rw [List.append_cons] at replayable ⊢
    obtain ⟨after, rest, replays⟩ := ih replays replayable
    exact ⟨after, by rw [List.foldlM_cons, first]; exact rest, replays⟩

theorem settled (all : ∀ ancode, ∀ student ∈ remaining ancode start.demands,
      student ∈ studentsOf (ofExam ancode) entries)
    (replays : Replays threshold start entries round) : ∀ demand ∈ round.demands, pending demand = [] := by
  intro demand member
  rw [List.eq_nil_iff_forall_not_mem]
  intro student inside
  obtain ⟨before, unnamed⟩ := replays.waiting demand.exam.ancode student
    (mem_remaining.mpr ⟨demand, member, rfl, inside⟩)
  exact unnamed (all _ student before)

private theorem pending_nil (none : pending demand = []) :
    demand.normal = [] ∧ demand.extended = [] ∧ demand.alone = [] := by
  simpa [pending] using none

private theorem seatAccommodated_settled {demands : List Demand} (none : ∀ demand ∈ demands, pending demand = []) :
    demands.foldlM (Round.seatAccommodated threshold) round = .ok round := by
  induction demands with
  | nil => rfl
  | cons demand demands ih =>
    rw [List.forall_mem_cons] at none
    obtain ⟨-, extended, alone⟩ := pending_nil none.1
    have nobody : round.seatAccommodated threshold demand = .ok round := by
      rw [Round.seatAccommodated, extended, alone]
      rfl
    rw [List.foldlM_cons, nobody]
    exact ih none.2

private theorem normalCount_settled (none : ∀ demand ∈ round.demands, pending demand = []) :
    round.normalCount = 0 := by
  rw [Round.normalCount, Ordering.total_eq_zero_iff]
  intro count listed
  obtain ⟨demand, member, rfl⟩ := List.mem_map.mp listed
  rw [(pending_nil (none demand member)).1]
  rfl

/-- A slot that is pinned to its entries is seated by its pins alone. -/
theorem allocateSlot_replay {allocator : Allocator} {records : List Accommodation}
    {pinned : List Seating} {blocked : List Block} {slot : Slot} {exams : List Exam}
    (started : allocator.start records blocked slot exams = .ok start) (fresh : Fresh start)
    (unreserved : allocator.params.reserveMinStudents = 0)
    (replayable : Replayable allocator.params.longDurationThreshold start
      (pinned.filter (·.slot = slot)))
    (all : ∀ ancode, ∀ student ∈ remaining ancode start.demands,
      student ∈ studentsOf (ofExam ancode) (pinned.filter (·.slot = slot))) :
    ∃ round, allocator.allocateSlot records pinned blocked slot exams = .ok round ∧
      Replays allocator.params.longDurationThreshold start (pinned.filter (·.slot = slot)) round := by
  obtain ⟨round, pins, replays⟩ := pins_replay fresh (replays_nothing fresh) replayable
  have none := settled all replays
  refine ⟨round, ?_, replays⟩
  have normals : round.seatNormals allocator.params round.normalCount = .ok round := by
    rw [normalCount_settled none]
    rfl
  refine (ok_bind started).trans ((ok_bind pins).trans ((ok_bind normals).trans
    ((ok_bind (seatAccommodated_settled none)).trans ?_)))
  rw [unreserved, Round.keepReserves, if_pos rfl]
  rfl

end Timetable.Proofs.SeatingReplay
