import Timetable.Proofs.PinLedger

/-! The entries of the pins of a slot. They begin as the lines of the pins make them, and whoever is seated later
is put behind. A room to which the lines leave no seats takes nobody any more. -/

namespace Timetable.Proofs.PinnedEntries
open SeatEntries SeatPool SeatingSteps SeatingPhases SlotRounds ClosedRooms PinLedger Returned

variable {threshold : Nat} {before middle after : Round} {entry : Seating} {entries : List Seating} {k : Seating}
  {students : List StudentId} {lines : List Line} {place : Place}

def studentsFor (k : Seating) (lines : List Line) : List StudentId :=
  (lines.filter (key ·.pin = k)).flatMap (·.students)

/-- The only entry of a key has these students, or there is no such entry and nobody. -/
def Standing (k : Seating) (students : List StudentId) (entries : List Seating) : Prop :=
  entries.filter (key · = k) = [{ k with students }] ∨ entries.filter (key · = k) = [] ∧ students = []

/-- The entry of a key that is not reserved takes in at its end what is merged. -/
theorem Standing.merge (standing : Standing k students entries) (plain : entry.reserve = false) :
    Standing k (students ++ studentsOf (key · = k) [entry]) (Round.merge entry entries) := by
  by_cases own : key entry = k
  · rw [studentsOf_chosen (decide_eq_true own)]
    left
    rcases merge_cases plain entries with ⟨absent, merged⟩ | ⟨front, first, back, rfl, same, merged⟩
    · have none : entries.filter (key · = k) = [] := by
        refine List.filter_eq_nil_iff.mpr fun other member same => absent ?_
        exact List.mem_map.mpr ⟨other, member, (of_decide_eq_true same).trans own.symm⟩
      obtain ⟨-, rfl⟩ := standing.resolve_left (by simp [none])
      rw [merged, List.filter_append, none, List.filter_singleton]
      subst own
      simp [key]
    · have chosen : decide (key first = k) = true := decide_eq_true (same.trans own)
      rw [Standing, List.filter_append, List.filter_cons_of_pos (p := fun other => key other = k) chosen] at standing
      have single := standing.resolve_right (by simp)
      obtain ⟨none, rest⟩ | ⟨-, nothing⟩ := List.append_eq_singleton_iff.mp single
      · obtain ⟨only, nobody⟩ := List.cons.inj rest
        have widened : decide (key { first with students := first.students ++ entry.students } = k) = true := chosen
        rw [merged, List.filter_append, none, List.nil_append,
          List.filter_cons_of_pos (p := fun other => key other = k) widened, nobody, only]
      · cases nothing
  · have other : decide (key entry = k) = false := decide_eq_false own
    rw [studentsOf_other other, List.append_nil, Standing, merge_other (fun _ => rfl) plain other]
    exact standing

private theorem key_of_reserve (seating : k.reserve = false) (reserved : entry.reserve = true) : key entry ≠ k := by
  intro same
  have reserve : (key entry).reserve = k.reserve := congrArg Seating.reserve same
  exact Bool.noConfusion (reserved.symm.trans (reserve.trans seating))

theorem Standing.echo (standing : Standing k students entries) (other : key entry ≠ k) :
    Standing k students (entries ++ [entry]) := by
  rw [Standing, List.filter_append, List.filter_singleton, decide_eq_false other, cond_false, List.append_nil]
  exact standing

private theorem Step.standing (step : Step threshold before entry after) (seating : k.reserve = false)
    (standing : Standing k students before.seatings) :
    Standing k (students ++ studentsOf (key · = k) [entry]) after.seatings := by
  have kept (reserved : entry.reserve = true) :
      Standing k (students ++ studentsOf (key · = k) [entry]) (before.seatings ++ [entry]) := by
    have other := key_of_reserve seating reserved
    rw [studentsOf_other (decide_eq_false other), List.append_nil]
    exact standing.echo other
  cases step with
  | seat _ _ _ _ plain => exact standing.merge plain
  | alone _ _ _ _ _ plain => exact standing.merge plain
  | short _ _ plain => exact standing.merge plain
  | echo _ _ _ reserved => exact kept reserved
  | keep _ _ _ reserved => exact kept reserved

private theorem run_standing (run : Run threshold before entries after) (seating : k.reserve = false)
    (standing : Standing k students before.seatings) :
    Standing k (students ++ studentsOf (key · = k) entries) after.seatings := by
  induction run generalizing students with
  | done =>
    rw [studentsOf_nil, List.append_nil]
    exact standing
  | next first _ ih =>
    rw [studentsOf_cons, ← List.append_assoc]
    exact ih (Step.standing first seating standing)

private theorem studentsFor_append (earlier later : List Line) :
    studentsFor k (earlier ++ later) = studentsFor k earlier ++ studentsFor k later := by
  rw [studentsFor, List.filter_append, List.flatMap_append]
  rfl

private theorem studentsFor_single (k : Seating) (line : Line) :
    studentsFor k [line] = studentsOf (key · = k) [{ line.pin with students := line.students }] := by
  by_cases own : key line.pin = k
  · rw [studentsOf_chosen (decide_eq_true own), studentsFor, List.filter_singleton, decide_eq_true own, cond_true,
      List.flatMap_singleton]
  · rw [studentsOf_other (decide_eq_false own), studentsFor, List.filter_singleton, decide_eq_false own, cond_false,
      List.flatMap_nil]

private theorem post_standing (line : Line) (seating : k.reserve = false) (standing : Standing k students entries) :
    Standing k (students ++ studentsFor k [line]) (post entries line) := by
  unfold post
  split
  · rename_i reserved
    have other := key_of_reserve seating reserved
    rw [studentsFor_single, studentsOf_other (decide_eq_false other), List.append_nil]
    exact standing.echo other
  · rename_i plain
    rw [studentsFor_single]
    exact standing.merge (by simpa using plain)

/-- The lines of a key make one entry, with their students in the order of the lines. -/
theorem posts_standing (lines : List Line) (seating : k.reserve = false) (standing : Standing k students entries) :
    Standing k (students ++ studentsFor k lines) (lines.foldl post entries) := by
  induction lines generalizing students entries with
  | nil =>
    rw [studentsFor, List.filter_nil, List.flatMap_nil, List.append_nil]
    exact standing
  | cons line lines ih =>
    rw [← List.singleton_append, studentsFor_append, ← List.append_assoc]
    exact ih (post_standing line seating standing)

def Reported (shortfalls : List Shortfall) (entry : Seating) : Prop :=
  entry.room = Room.placeholder ∧
    ∃ shortfall ∈ shortfalls, shortfall.slot = entry.slot ∧ shortfall.ancode = entry.ancode

theorem Reported.later {shortfalls more : List Shortfall} (reported : Reported shortfalls entry)
    (grows : shortfalls <+: more) : Reported more entry := by
  obtain ⟨room, shortfall, member, same⟩ := reported
  exact ⟨room, shortfall, grows.subset member, same⟩

theorem Reported.of_key {shortfalls : List Shortfall} {other : Seating} (reported : Reported shortfalls other)
    (same : key other = key entry) : Reported shortfalls entry := by
  obtain ⟨room, shortfall, member, slot, ancode⟩ := reported
  have slots : (key other).slot = (key entry).slot := congrArg Seating.slot same
  exact ⟨(room_of_key same).symm.trans room, shortfall, member, slot.trans slots, ancode.trans (ancode_of_key same)⟩

private theorem run_placed (run : Run threshold before entries after) (sound : Sound before.pool) :
    ∀ entry ∈ entries, (∃ place ∈ before.pool.places, place.room.name = entry.room) ∨
      Reported after.shortfalls entry := by
  induction run with
  | done => simp
  | next first rest ih =>
    refine List.forall_mem_cons.mpr ⟨?_, fun entry member => ?_⟩
    · cases first with
      | seat offered _ _ room => exact .inl ⟨_, offered.known sound, room.symm⟩
      | alone free _ _ _ room => exact .inl ⟨_, sound.free_known _ free, room.symm⟩
      | short slot room =>
        refine .inr (Reported.later ?_ rest.shortfalls_prefix)
        exact ⟨room, _, List.mem_append_right _ List.mem_cons_self, slot.symm, rfl⟩
      | echo offered _ room => exact .inl ⟨_, offered.known sound, room.symm⟩
      | keep free _ room => exact .inl ⟨_, sound.free_known _ free, room.symm⟩
    · exact first.places_eq ▸ ih (first.sound sound) entry member

def Shut (place : Place) (pool : Pool) : Prop := ∃ room ∈ pool.used, room.place = place ∧ room.seatsLeft = 0

theorem Shut.update {pool : Pool} {change : UsedRoom → UsedRoom} (shut : Shut place pool)
    (fixed : ∀ room, (change room).place = room.place) (less : ∀ room, (change room).seatsLeft ≤ room.seatsLeft)
    (other : Place) : Shut place (pool.update other change) := by
  obtain ⟨room, used, rfl, none⟩ := shut
  refine ⟨_, List.mem_map_of_mem used, ?_⟩
  split
  · exact ⟨fixed room, Nat.le_zero.mp (none ▸ less room)⟩
  · exact ⟨rfl, none⟩

theorem Shut.offer {pool offer : Pool} {other : Place} (shut : Shut place pool) (offered : Offers pool other offer) :
    Shut place offer := by
  obtain ⟨room, used, rest⟩ := shut
  cases offered with
  | inUse => exact ⟨room, used, rest⟩
  | opened => exact ⟨room, List.mem_append_left _ used, rest⟩

private theorem Step.shut (step : Step threshold before entry after) (shut : Shut place before.pool) :
    Shut place after.pool := by
  cases step with
  | seat offered =>
    refine (shut.offer offered).update ?_ ?_ _
    · exact fun _ => rfl
    · exact fun _ => Nat.sub_le _ _
  | alone => exact shut
  | short => exact shut
  | echo offered =>
    refine (shut.offer offered).update ?_ ?_ _
    · exact fun _ => rfl
    · exact fun _ => Nat.zero_le _
  | keep => exact shut

/-- Nobody is noted for a room without a seat to give, but those who are noted under its name for want of one. -/
theorem Step.shut_out (step : Step threshold before entry after) (sound : Sound before.pool)
    (named : (before.pool.places.map (·.room.name)).Nodup) (shut : Shut place before.pool)
    (here : entry.room = place.room.name) (plain : entry.reserve = false) :
    entry.students = [] ∨ Reported after.shortfalls entry := by
  have known : place ∈ before.pool.places := by
    obtain ⟨used, present, rfl, -⟩ := shut
    exact sound.used_known _ present
  cases step with
  | seat offered fits _ room =>
    obtain rfl := Lookups.eq_of_key named (offered.known sound) known (room.symm.trans here)
    obtain ⟨used, present, rfl, none⟩ := shut.offer offered
    rw [(offered.sound sound).seatsLeft_used present, none] at fits
    exact .inl (List.eq_nil_of_length_eq_zero (Nat.le_zero.mp fits))
  | alone free _ _ _ room =>
    obtain rfl := Lookups.eq_of_key named (sound.free_known _ free) known (room.symm.trans here)
    obtain ⟨used, present, same, -⟩ := shut
    exact absurd (congrArg Place.position same.symm) (sound.not_used free present)
  | short slot room => exact .inr ⟨room, _, List.mem_append_right _ List.mem_cons_self, slot.symm, rfl⟩
  | echo _ _ _ reserved => exact Bool.noConfusion (plain.symm.trans reserved)
  | keep _ _ _ reserved => exact Bool.noConfusion (plain.symm.trans reserved)

private theorem run_shut_out (run : Run threshold before entries after) (sound : Sound before.pool)
    (named : (before.pool.places.map (·.room.name)).Nodup) (shut : Shut place before.pool) :
    ∀ entry ∈ entries, entry.room = place.room.name → entry.reserve = false →
      entry.students = [] ∨ Reported after.shortfalls entry := by
  induction run with
  | done => simp
  | next first rest ih =>
    refine List.forall_mem_cons.mpr ⟨fun here plain => ?_, ?_⟩
    · exact (Step.shut_out first sound named shut here plain).imp_right (·.later rest.shortfalls_prefix)
    · exact ih (first.sound sound) (first.places_eq ▸ named) (Step.shut first shut)

private theorem posts_keys {other : Seating} (lines : List Line) (entries : List Seating) :
    other ∈ (lines.foldl post entries).map key ↔ other ∈ entries.map key ∨ ∃ line ∈ lines, key line.pin = other := by
  induction lines generalizing entries with
  | nil => simp
  | cons line lines ih =>
    have first : other ∈ (post entries line).map key ↔ other ∈ entries.map key ∨ key line.pin = other := by
      unfold post
      split
      · simp [eq_comm]
      · rename_i plain
        rw [mem_keys_merge (by simpa using plain), eq_comm]
        rfl
    rw [List.foldl_cons, ih, first, or_assoc]
    simp

private theorem posts_reserves (lines : List Line) (entries : List Seating) :
    (lines.foldl post entries).filter (·.reserve) =
      entries.filter (·.reserve) ++ (lines.map (·.pin)).filter (·.reserve) := by
  induction lines generalizing entries with
  | nil => rw [List.map_nil, List.filter_nil, List.append_nil, List.foldl_nil]
  | cons line lines ih =>
    have first : (post entries line).filter (·.reserve) =
        entries.filter (·.reserve) ++ [line.pin].filter (·.reserve) := by
      unfold post
      split
      · exact List.filter_append ..
      · rename_i plain
        have seating : line.pin.reserve = false := by simpa using plain
        rw [merge_reserves (by simpa using plain)]
        simp [seating]
    rw [List.foldl_cons, ih, first, List.append_assoc, ← List.filter_append, List.map_cons, List.singleton_append]

private theorem Standing.entry_eq (standing : Standing k students entries) (member : entry ∈ entries)
    (own : key entry = k) :
    entry = { k with students } := by
  have kept : entry ∈ entries.filter (key · = k) := List.mem_filter.mpr ⟨member, decide_eq_true own⟩
  rcases standing with single | ⟨none, -⟩
  · exact List.mem_singleton.mp (single ▸ kept)
  · rw [none] at kept
    cases kept

structure Honoured (rooms : List Room) (exams : List Exam) (lines : List Line) (seatings : List Seating)
    (shortfalls : List Shortfall) : Prop where
  /-- Reserves are noted as they are pinned, in their order. -/
  echoed : (lines.map (·.pin)).filter (·.reserve) <+: seatings.filter (·.reserve)
  /-- Where lines leave no seats, as after a reserve, nobody sits but the students of lines. -/
  shut : ∀ line ∈ lines, seatsFor rooms lines line.pin.room = 0 → ∀ entry ∈ seatings, entry.room = line.pin.room →
    entry.reserve = false → entry.students = studentsFor (key entry) lines ∨ Reported shortfalls entry
  /-- The other pins have one entry, which holds their students one after another. -/
  seated : ∀ earlier line later, lines = earlier ++ line :: later → line.pin.reserve = false →
    ∃ rest, seatings.filter (key · = key line.pin) =
      [{ line.pin with students := studentsFor (key line.pin) earlier ++ line.students ++ rest }]
  /-- Registrants whom no line seats are seated later or reported. -/
  covered : ∀ exam ∈ exams, ∀ student ∈ exam.registrants,
    (∃ line ∈ lines, seats exam.ancode student line = true) ∨
      ∃ entry ∈ seatings, entry.ancode = exam.ancode ∧ entry.reserve = false ∧ student ∈ entry.students ∧
        ((∃ room ∈ rooms, room.name = entry.room) ∨ Reported shortfalls entry)

section
variable {allocator : Allocator} {records : List Accommodation} {pinned : List Seating} {blocked : List Block}
  {slot : Slot} {exams : List Exam} {round : Round} {keep : Seating → Bool} {line : Line}

private theorem shut_of_full (booked : Booked allocator records blocked slot exams lines middle) (listed : line ∈ lines)
    (full : seatsFor allocator.rooms lines line.pin.room = 0) (isOpen : Open allocator blocked slot place)
    (name : place.room.name = line.pin.room) : Shut place middle.pool := by
  rcases (booked.holds place).mpr isOpen with free | ⟨room, used, rfl⟩
  · exact absurd name.symm (booked.accounts.free place free line listed)
  · exact ⟨room, used, rfl, (booked.accounts.used room used).trans (name ▸ full)⟩

section
variable (booked : Booked allocator records blocked slot exams lines middle)
  (run : Run threshold middle entries round)
include booked run

private theorem echoed_after : (lines.map (·.pin)).filter (·.reserve) <+: round.seatings.filter (·.reserve) := by
  rw [run.reserves, booked.entries, book, posts_reserves, List.filter_nil, List.nil_append]
  exact List.prefix_append _ _

private theorem standing_after (plain : k.reserve = false) :
    Standing k (studentsFor k lines ++ studentsOf (key · = k) entries) round.seatings := by
  have nothing : Standing k [] [] := .inr ⟨rfl, rfl⟩
  refine run_standing run plain ?_
  rw [booked.entries]
  exact posts_standing lines plain nothing

private theorem seated_after {earlier later : List Line} (split : lines = earlier ++ line :: later)
    (plain : line.pin.reserve = false) : ∃ rest, round.seatings.filter (key · = key line.pin) =
      [{ line.pin with students := studentsFor (key line.pin) earlier ++ line.students ++ rest }] := by
  have present : key line.pin ∈ round.seatings.map key := by
    rw [run.mem_keys, booked.entries, book, posts_keys]
    exact .inl (.inr ⟨line, by simp [split], rfl⟩)
  obtain ⟨entry, member, same⟩ := List.mem_map.mp present
  have chosen : entry ∈ round.seatings.filter (key · = key line.pin) :=
    List.mem_filter.mpr ⟨member, decide_eq_true same⟩
  have own : studentsFor (key line.pin) (line :: later) = line.students ++ studentsFor (key line.pin) later := by
    simp [studentsFor]
  rcases standing_after booked run (k := key line.pin) plain with single | ⟨none, -⟩
  · refine ⟨studentsFor (key line.pin) later ++ studentsOf (key · = key line.pin) entries, ?_⟩
    rw [single, split, studentsFor_append, own]
    simp [key]
  · rw [none] at chosen
    cases chosen

private theorem shut_after (named : (allocator.rooms.map (·.name)).Nodup) (listed : line ∈ lines)
    (heard : Heard allocator blocked slot exams line.pin) (full : seatsFor allocator.rooms lines line.pin.room = 0)
    (member : entry ∈ round.seatings) (here : entry.room = line.pin.room) (plain : entry.reserve = false) :
    entry.students = studentsFor (key entry) lines ∨ Reported round.shortfalls entry := by
  obtain ⟨-, place, isOpen, name⟩ := heard
  have shut := shut_of_full booked listed full isOpen name
  have students := (standing_after booked run (k := key entry) plain).entry_eq member rfl
  have out := run_shut_out run booked.sound (booked.names named) shut
  by_cases reported : Reported round.shortfalls entry
  · exact .inr reported
  · left
    have nobody : studentsOf (key · = key entry) entries = [] := by
      refine studentsOf_none fun noted logged same => ?_
      have same : key noted = key entry := of_decide_eq_true same
      have seating : noted.reserve = false := by
        cases reserve : noted.reserve with
        | false => rfl
        | true => exact absurd same (key_of_reserve plain reserve)
      have room : noted.room = place.room.name := (room_of_key same).trans (here.trans name.symm)
      exact (out noted logged room seating).resolve_right fun short => reported (short.of_key same)
    rw [nobody, List.append_nil] at students
    exact congrArg Seating.students students

private theorem covered_after {minStudents : Nat} (fills : Fills minStudents middle.demands entries) {exam : Exam}
    (sits : exam ∈ exams) {student : StudentId} (registered : student ∈ exam.registrants) :
    (∃ line ∈ lines, seats exam.ancode student line = true) ∨
      ∃ entry ∈ round.seatings, entry.ancode = exam.ancode ∧ entry.reserve = false ∧ student ∈ entry.students ∧
        ((∃ room ∈ allocator.rooms, room.name = entry.room) ∨ Reported round.shortfalls entry) := by
  rcases booked.waits exam.ancode exam sits rfl student registered with waiting | seated
  · right
    obtain ⟨noted, logged, own, seated⟩ := mem_studentsOf.mp ((fills.students exam.ancode).mem_iff.mp waiting)
    have plain : noted.reserve = false := by
      cases reserve : noted.reserve with
      | false => rfl
      | true =>
        rw [(fills.reserves noted logged reserve).1] at seated
        cases seated
    have brought : student ∈ studentsOf (key · = key noted) round.seatings := by
      rw [(run.students (fun _ => rfl)).mem_iff]
      exact List.mem_append_right _ (mem_studentsOf.mpr ⟨noted, logged, decide_eq_true rfl, seated⟩)
    obtain ⟨entry, member, same, present⟩ := mem_studentsOf.mp brought
    have same : key noted = key entry := (of_decide_eq_true same).symm
    refine ⟨entry, member, (ancode_of_key same).symm.trans (of_decide_eq_true own), ?_, present, ?_⟩
    · exact (congrArg Seating.reserve same).symm.trans plain
    · rcases run_placed run booked.sound noted logged with ⟨place, known, name⟩ | reported
      · rw [booked.places] at known
        exact .inl ⟨place.room, List.mem_of_getElem? (mem_places.mp known), name.trans (room_of_key same)⟩
      · exact .inr (reported.of_key same)
  · exact .inl seated

end

theorem slot_honoured (named : (allocator.rooms.map (·.name)).Nodup)
    (chosen : ∀ pin ∈ pinned, pin.slot = slot → (keep pin = true ↔ Heard allocator blocked slot exams pin))
    (returned : allocator.allocateSlot records pinned blocked slot exams = .ok round) :
    allocator.allocateSlot records (pinned.filter keep) blocked slot exams = .ok round ∧
      Honoured allocator.rooms exams
        (ledger allocator.rooms records exams [] ((pinned.filter (·.slot = slot)).filter keep))
        round.seatings round.shortfalls := by
  obtain ⟨start, started, following⟩ := bind_ok returned
  obtain ⟨honoured, middle, entries, pins, first, honours, second, fills⟩ :=
    allocateSlot_run started (start_sound started) (start_empty started).1 returned
  have here : ∀ pin ∈ pinned.filter (·.slot = slot), pin.slot = slot := by
    intro pin member
    exact of_decide_eq_true (List.mem_filter.mp member).2
  obtain ⟨booked, again⟩ := (start_booked started).fold named here
    (fun pin member => chosen pin (List.mem_filter.mp member).1 (here pin member)) pins
  have chosen_here : (pinned.filter keep).filter (·.slot = slot) = (pinned.filter (·.slot = slot)).filter keep := by
    rw [List.filter_filter, List.filter_filter, List.filter_congr fun _ _ => Bool.and_comm _ _]
  refine ⟨?_, ?_⟩
  · unfold Allocator.allocateSlot
    rw [ok_bind started, chosen_here, again.trans pins.symm]
    exact following
  have heard : ∀ line ∈ ledger allocator.rooms records exams [] ((pinned.filter (·.slot = slot)).filter keep),
      Heard allocator blocked slot exams line.pin := by
    intro line listed
    have member := List.mem_map_of_mem (f := Line.pin) listed
    rw [ledger_pins, List.map_nil, List.nil_append, List.mem_filter, List.mem_filter] at member
    exact (chosen line.pin member.1.1 (of_decide_eq_true member.1.2)).mp member.2
  exact
    { echoed := echoed_after booked second
      shut := fun line listed full entry member room plain =>
        shut_after booked second named listed (heard line listed) full member room plain
      seated := fun earlier line later split plain => seated_after booked second split plain
      covered := fun exam sits student registered => covered_after booked second fills sits registered }

end

end Timetable.Proofs.PinnedEntries
