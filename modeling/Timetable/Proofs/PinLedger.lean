import Timetable.Proofs.ClosedRooms
import Timetable.Proofs.PinnedStudents

/-! The account by which pins are honoured. Each pin of a slot that can be honoured adds a line: the students it
keeps, as far as the lines before it leave seats in its room. After the pins a round agrees with these lines in
the seats it has to give, the normal students it has to seat and the entries it holds. -/

namespace Timetable.Proofs.PinLedger
open SeatDemands SeatEntries SeatPool SeatingSteps SeatingPhases SlotRounds PinnedStudents ClosedRooms Returned

/-- A pin and the students it keeps. -/
structure Line where
  pin : Seating
  students : List StudentId

section
variable (rooms : List Room) (records : List Accommodation) (exams : List Exam)

def seatsOf (name : RoomName) : Nat := ((rooms.find? (·.name = name)).map (·.seats)).getD 0

/-- The seats that the lines leave of a room, which are none after a reserve. -/
def seatsFor (lines : List Line) (name : RoomName) : Nat :=
  if lines.any fun line => line.pin.reserve && line.pin.room = name then 0
  else seatsOf rooms name - total ((lines.filter (·.pin.room = name)).map (·.students.length))

def seats (ancode : Ancode) (student : StudentId) (line : Line) : Bool :=
  line.pin.ancode = ancode && line.students.contains student

/-- The normal students of an exam whom the lines leave, in the order of their registration. -/
def normalsLeft (lines : List Line) (ancode : Ancode) : List StudentId :=
  match exams.find? (·.ancode = ancode) with
  | some exam => exam.registrants.filter fun student =>
    Grant.of records student = .nothing && !lines.any (seats ancode student)
  | none => []

/-- The students that a pin keeps after other lines. -/
def kept (lines : List Line) (pin : Seating) : List StudentId :=
  if pin.reserve then []
  else if IsFilled pin then (normalsLeft records exams lines pin.ancode).take (seatsFor rooms lines pin.room)
  else pin.students.take (seatsFor rooms lines pin.room)

/-- The lines of pins after other lines. -/
def ledger (lines : List Line) : List Seating → List Line
  | [] => lines
  | pin :: pins => ledger (lines ++ [⟨pin, kept rooms records exams lines pin⟩]) pins

end

def post (entries : List Seating) (line : Line) : List Seating :=
  if line.pin.reserve then entries ++ [line.pin]
  else Round.merge { line.pin with students := line.students } entries

def book (lines : List Line) : List Seating := lines.foldl post []

variable {rooms : List Room} {records : List Accommodation} {exams : List Exam} {lines : List Line} {line : Line}
  {name : RoomName} {ancode : Ancode} {pin : Seating} {pins : List Seating} {pool after : Pool} {place : Place}

section

theorem ledger_pins (lines : List Line) (pins : List Seating) :
    (ledger rooms records exams lines pins).map (·.pin) = lines.map (·.pin) ++ pins := by
  induction pins generalizing lines with
  | nil => rw [ledger, List.append_nil]
  | cons pin pins ih => rw [ledger, ih, List.map_append, List.append_assoc, List.map_singleton, List.singleton_append]

private theorem seatsFor_fresh (fresh : ∀ line ∈ lines, line.pin.room ≠ name) :
    seatsFor rooms lines name = seatsOf rooms name := by
  have none : lines.filter (·.pin.room = name) = [] := by
    simpa [List.filter_eq_nil_iff] using fresh
  have unsealed : lines.any (fun line => line.pin.reserve && line.pin.room = name) = false := by
    simpa using fun line member _ => fresh line member
  rw [seatsFor, unsealed, none]
  rfl

private theorem seatsFor_other (other : line.pin.room ≠ name) :
    seatsFor rooms (lines ++ [line]) name = seatsFor rooms lines name := by
  simp [seatsFor, other]

private theorem seatsFor_plain (plain : line.pin.reserve = false) :
    seatsFor rooms (lines ++ [line]) line.pin.room = seatsFor rooms lines line.pin.room - line.students.length := by
  have chosen : [line].filter (fun other => other.pin.room = line.pin.room) = [line] := by simp
  have same : (lines ++ [line]).any (fun other => other.pin.reserve && other.pin.room = line.pin.room)
      = lines.any fun other => other.pin.reserve && other.pin.room = line.pin.room := by simp [plain]
  unfold seatsFor
  rw [same, List.filter_append, chosen, List.map_append, Ordering.total_append, List.map_singleton,
    Ordering.total_cons, Ordering.total_nil, Nat.add_zero]
  split
  · rw [Nat.zero_sub]
  · rw [Nat.sub_sub]

private theorem seatsFor_reserve (reserved : line.pin.reserve = true) :
    seatsFor rooms (lines ++ [line]) line.pin.room = 0 := by
  simp [seatsFor, reserved]

private theorem normalsLeft_silent (silent : ∀ student, seats ancode student line = false) :
    normalsLeft records exams (lines ++ [line]) ancode = normalsLeft records exams lines ancode := by
  simp only [normalsLeft, List.any_append, List.any_cons, silent, List.any_nil, Bool.or_false]

private theorem normalsLeft_own : normalsLeft records exams (lines ++ [line]) line.pin.ancode =
    (normalsLeft records exams lines line.pin.ancode).filter fun student => !line.students.contains student := by
  unfold normalsLeft
  split
  · rw [List.filter_filter]
    refine List.filter_congr fun student _ => ?_
    have own : seats line.pin.ancode student line = line.students.contains student := by simp [seats]
    rw [List.any_append, Bool.not_or, List.any_cons, List.any_nil, Bool.or_false, own, ← Bool.and_assoc, Bool.and_comm]
  · rfl

private theorem normalsLeft_nodup (lines : List Line) (ancode : Ancode) :
    (normalsLeft records exams lines ancode).Nodup := by
  unfold normalsLeft
  split
  · exact (Ordering.eraseDups_nodup _).filter _
  · exact List.nodup_nil

/-- Where nobody stands twice, who is not among the first ones comes after them. -/
theorem filter_take {students : List StudentId} (distinct : students.Nodup) (n : Nat) :
    (students.filter fun student => !(students.take n).contains student) = students.drop n := by
  have apart : ∀ student ∈ students.drop n, student ∉ students.take n := by
    rw [← List.take_append_drop n students, List.nodup_append] at distinct
    exact fun student late early => distinct.2.2 student early student late rfl
  calc students.filter (fun student => !(students.take n).contains student)
    _ = (students.take n ++ students.drop n).filter fun student => !(students.take n).contains student := by
      rw [List.take_append_drop]
    _ = (students.drop n).filter fun student => !(students.take n).contains student := by
      refine filter_back (fun student early => ?_) _
      simpa using early
    _ = students.drop n := by
      refine List.filter_eq_self.mpr fun student late => ?_
      simpa using apart student late

end

/-- A pool that agrees with the lines: no line has a free room, and each room in use has the seats that the lines
leave of it. -/
structure Accounts (rooms : List Room) (lines : List Line) (pool : Pool) : Prop where
  free : ∀ place ∈ pool.free, ∀ line ∈ lines, line.pin.room ≠ place.room.name
  used : ∀ room ∈ pool.used, room.seatsLeft = seatsFor rooms lines room.place.room.name

namespace Accounts

theorem offer (accounts : Accounts rooms lines pool) (offered : Offers pool place after)
    (seats : ∀ place ∈ pool.free, seatsOf rooms place.room.name = place.room.seats) : Accounts rooms lines after := by
  cases offered with
  | inUse => exact accounts
  | opened free =>
    refine ⟨fun other remains => accounts.free other (List.mem_filter.mp remains).1, fun room used => ?_⟩
    rcases List.mem_append.mp used with used | used
    · exact accounts.used room used
    · rw [List.mem_singleton.mp used, seatsFor_fresh (accounts.free place free), seats place free]

/-- A line changes the account of its own room only. -/
theorem update (accounts : Accounts rooms lines pool) (sound : Sound pool)
    (named : (pool.places.map (·.room.name)).Nodup) {used : UsedRoom} (present : used ∈ pool.used)
    (here : line.pin.room = used.place.room.name) {change : UsedRoom → UsedRoom}
    (fixed : ∀ room, (change room).place = room.place)
    (left : (change used).seatsLeft = seatsFor rooms (lines ++ [line]) line.pin.room) :
    Accounts rooms (lines ++ [line]) (pool.update used.place change) where
  free other free := by
    refine List.forall_mem_append.mpr ⟨accounts.free other free, List.forall_mem_singleton.mpr fun same => ?_⟩
    have equal := Lookups.eq_of_key named (sound.free_known _ free) (sound.used_known _ present) (same.symm.trans here)
    exact sound.not_used free present (congrArg Place.position equal)
  used changed member := by
    obtain ⟨room, listed, rfl⟩ := List.mem_map.mp member
    split
    · rename_i same
      obtain rfl := sound.used_eq listed present same
      rw [fixed, left, here]
    · rename_i differs
      have apart : line.pin.room ≠ room.place.room.name := by
        intro same
        have equal := Lookups.eq_of_key named (sound.used_known _ listed) (sound.used_known _ present)
          (same.symm.trans here)
        exact differs (congrArg Place.position equal)
      rw [seatsFor_other apart]
      exact accounts.used room listed

end Accounts

section
variable {α : Type} {items : List α} {index : Nat} {item other : α} {p q : α → Bool}

private theorem find?_zipIdx (found : items.zipIdx.find? (p ·.1) = some (item, index)) : items.find? p = some item ∧
    ∀ other, p other = true → (items.set index other).find? p = some other := by
  obtain ⟨chosen, front, back, split, skipped⟩ := List.find?_eq_some_iff_append.mp found
  obtain ⟨front, rest, rfl, rfl, tail⟩ := List.zipIdx_eq_append_iff.mp split
  cases rest with
  | nil => cases tail
  | cons head back =>
    rw [List.zipIdx_cons, List.cons.injEq, Prod.mk.injEq, Nat.zero_add] at tail
    obtain ⟨⟨rfl, rfl⟩, -⟩ := tail
    have before : ∀ x ∈ front, (!p x) = true := by
      intro x member
      obtain ⟨place, here⟩ := List.getElem?_of_mem member
      exact skipped (x, place) (List.mk_mem_zipIdx_iff_getElem?.mpr here)
    refine ⟨List.find?_eq_some_iff_append.mpr ⟨chosen, front, back, rfl, before⟩, fun other replaced => ?_⟩
    refine List.find?_eq_some_iff_append.mpr ⟨replaced, front, back, ?_, before⟩
    rw [List.set_append_right _ _ (Nat.le_refl _), Nat.sub_self, List.set_cons_zero]

private theorem find?_set_other (present : items[index]? = some item) (unchosen : q item = false)
    (replaced : q other = false) :
    (items.set index other).find? q = items.find? q := by
  obtain ⟨front, back, rfl, set⟩ := exists_split present
  rw [set, List.find?_append, List.find?_append, List.find?_cons_of_neg (by simp [replaced]),
    List.find?_cons_of_neg (by simp [unchosen])]

end

/-- Whom a pin seats is taken out of the normal students, whether it was drawn or named. -/
theorem drawn_normals {demand : Demand} {n : Nat} (distinct : demand.normal.Nodup) (plain : pin.reserve = false) :
    (drawn demand pin n).2.normal = demand.normal.filter fun student => !(drawn demand pin n).1.contains student := by
  by_cases filled : IsFilled pin
  · rw [drawn_filled filled]
    exact (filter_take distinct n).symm
  · rw [drawn_named plain filled]
    rfl

private theorem seatsOf_place (named : (rooms.map (·.name)).Nodup) (known : place ∈ Place.ofRooms rooms) :
    seatsOf rooms place.room.name = place.room.seats := by
  rw [seatsOf, Lookups.find?_key named (List.mem_of_getElem? (mem_places.mp known))]
  rfl

private theorem book_concat (lines : List Line) (line : Line) : book (lines ++ [line]) = post (book lines) line :=
  List.foldl_concat ..

variable {allocator : Allocator} {blocked : List Block} {slot : Slot} {before later : Round} {threshold index : Nat}
  {demand : Demand}

/-- A pin whose exam is in the slot and whose room can be had there. -/
def Heard (allocator : Allocator) (blocked : List Block) (slot : Slot) (exams : List Exam) (pin : Seating) : Prop :=
  (∃ exam ∈ exams, exam.ancode = pin.ancode) ∧ ∃ place, Open allocator blocked slot place ∧ place.room.name = pin.room

structure Booked (allocator : Allocator) (records : List Accommodation) (blocked : List Block) (slot : Slot)
    (exams : List Exam) (lines : List Line) (round : Round) : Prop where
  here : round.slot = slot
  sound : Sound round.pool
  places : round.pool.places = Place.ofRooms allocator.rooms
  holds : ∀ place, Holds round.pool place ↔ Open allocator blocked slot place
  accounts : Accounts allocator.rooms lines round.pool
  demands : round.demands.map (·.exam) = exams
  normals : ∀ ancode demand, round.demands.find? (·.exam.ancode = ancode) = some demand →
    demand.normal = normalsLeft records exams lines ancode
  waits : ∀ ancode, ∀ exam ∈ exams, exam.ancode = ancode → ∀ student ∈ exam.registrants,
    student ∈ remaining ancode round.demands ∨ ∃ line ∈ lines, seats ancode student line = true
  entries : round.seatings = book lines
  shortfalls : round.shortfalls = []

namespace Booked

section
variable (booked : Booked allocator records blocked slot exams lines before) {rest : Demand}
  (found : before.demands.zipIdx.find? (·.1.exam.ancode = line.pin.ancode) = some (demand, index))
  (exam : rest.exam = demand.exam)
include booked found exam

theorem normals_set
    (normals : rest.normal = demand.normal.filter fun student => !line.students.contains student) :
    ∀ ancode other, (before.demands.set index rest).find? (·.exam.ancode = ancode) = some other →
      other.normal = normalsLeft records exams (lines ++ [line]) ancode := by
  intro ancode other known
  obtain ⟨first, replaced⟩ := find?_zipIdx (p := fun demand : Demand => demand.exam.ancode = line.pin.ancode) found
  have own : demand.exam.ancode = line.pin.ancode := by simpa using List.find?_some first
  by_cases same : line.pin.ancode = ancode
  · subst same
    rw [replaced rest (decide_eq_true (exam ▸ own))] at known
    obtain rfl := Option.some.inj known
    rw [normals, normalsLeft_own, booked.normals _ _ first]
  · have present := List.mk_mem_zipIdx_iff_getElem?.mp (List.mem_of_find?_eq_some found)
    rw [find?_set_other present (by simpa [own] using same) (by simpa [exam, own] using same)] at known
    rw [normalsLeft_silent fun student => by simp [seats, same]]
    exact booked.normals ancode other known

private theorem waits_set (leaves : ∀ student ∈ pending demand, student ∈ pending rest ∨ student ∈ line.students) :
    ∀ ancode, ∀ exam ∈ exams, exam.ancode = ancode → ∀ student ∈ exam.registrants,
      student ∈ remaining ancode (before.demands.set index rest) ∨
        ∃ other ∈ lines ++ [line], seats ancode student other = true := by
  intro ancode sits member same student registered
  have present := List.mk_mem_zipIdx_iff_getElem?.mp (List.mem_of_find?_eq_some found)
  have own : demand.exam.ancode = line.pin.ancode := by simpa using List.find?_some found
  rcases booked.waits ancode sits member same student registered with waiting | ⟨other, listed, seated⟩
  · refine (mem_remaining_set present exam leaves waiting).imp_right fun ⟨here, seated⟩ => ?_
    exact ⟨line, List.mem_append_right _ List.mem_cons_self, by simp [seats, own.symm.trans here, seated]⟩
  · exact .inr ⟨other, List.mem_append_left _ listed, seated⟩

end

section
variable (booked : Booked allocator records blocked slot exams lines before)
  (named : (allocator.rooms.map (·.name)).Nodup)
include booked named

theorem names : (before.pool.places.map (·.room.name)).Nodup := by
  rw [← ofRooms_rooms allocator.rooms, List.map_map, ← booked.places] at named
  exact named

theorem offer (offered : Offers before.pool place pool) : Accounts allocator.rooms lines pool := by
  refine booked.accounts.offer offered fun place free => seatsOf_place named ?_
  exact booked.places ▸ booked.sound.free_known place free

theorem seatsLeft (offered : Offers before.pool place pool) :
    pool.seatsLeft place = seatsFor allocator.rooms lines place.room.name := by
  obtain ⟨used, present, rfl⟩ := offered.exists_used
  rw [(offered.sound booked.sound).seatsLeft_used present]
  exact (booked.offer named offered).used used present

private theorem kept_eq (offered : Offers before.pool place pool) (name : place.room.name = pin.room)
    (plain : pin.reserve = false) (found : before.demands.find? (·.exam.ancode = pin.ancode) = some demand) :
    (drawn demand pin (pool.seatsLeft place)).1 = kept allocator.rooms records exams lines pin := by
  have seating : ¬ pin.reserve = true := by simp [plain]
  rw [kept, if_neg seating, booked.seatsLeft named offered, name]
  by_cases filled : IsFilled pin
  · rw [drawn_filled filled, if_pos filled, Demand.firstNormal, booked.normals _ _ found]
  · rw [drawn_named plain filled, if_neg filled]

theorem echo (offered : Offers before.pool place pool) (name : place.room.name = pin.room)
    (reserved : pin.reserve = true) :
    Booked allocator records blocked slot exams (lines ++ [⟨pin, kept allocator.rooms records exams lines pin⟩])
      (Round.pinReserve { before with pool } place pin) := by
  have sound := offered.sound booked.sound
  have nobody : kept allocator.rooms records exams lines pin = [] := if_pos reserved
  rw [nobody]
  obtain ⟨used, present, rfl⟩ := offered.exists_used
  refine ⟨booked.here, sound.update _ fun _ => rfl, offered.places_eq.trans booked.places, fun place => ?_, ?_,
    booked.demands, fun ancode demand found => ?_, fun ancode exam member same student registered => ?_, ?_,
    booked.shortfalls⟩
  · exact holds_close.trans ((offered.holds_iff booked.sound).trans (booked.holds place))
  · refine (booked.offer named offered).update sound ?_ present name.symm (fun _ => rfl) ?_
    · exact offered.places_eq ▸ booked.names named
    · exact (seatsFor_reserve reserved).symm
  · rw [normalsLeft_silent fun student => by simp [seats]]
    exact booked.normals ancode demand found
  · refine (booked.waits ancode exam member same student registered).imp_right ?_
    rintro ⟨line, listed, seated⟩
    exact ⟨line, List.mem_append_left _ listed, seated⟩
  · rw [book_concat, ← booked.entries, post, if_pos reserved]
    rfl

theorem seat (offered : Offers before.pool place pool) (name : place.room.name = pin.room)
    (plain : pin.reserve = false) (here : pin.slot = slot)
    (found : before.demands.zipIdx.find? (·.1.exam.ancode = pin.ancode) = some (demand, index))
    (returned : Round.pinStudents { before with pool } threshold index demand place pin = .ok later) :
    Booked allocator records blocked slot exams (lines ++ [⟨pin, kept allocator.rooms records exams lines pin⟩])
      later := by
  obtain ⟨first, -⟩ := find?_zipIdx (p := fun demand : Demand => demand.exam.ancode = pin.ancode) found
  have listed := List.mk_mem_zipIdx_iff_getElem?.mp (List.mem_of_find?_eq_some found)
  have distinct : demand.normal.Nodup := by
    rw [booked.normals _ _ first]
    exact normalsLeft_nodup _ _
  have normals := @drawn_normals pin demand (pool.seatsLeft place) distinct plain
  obtain ⟨exam, -, leaves, -⟩ := drawn_spec demand pin (pool.seatsLeft place)
  rw [pinStudents_eq] at returned
  obtain ⟨_, -, rfl⟩ := seat_ok returned
  rw [← booked.kept_eq named offered name plain first]
  generalize drawn demand pin (pool.seatsLeft place) = parts at *
  obtain ⟨used, present, rfl⟩ := offered.exists_used
  have sound := offered.sound booked.sound
  have left := (booked.offer named offered).used used present
  refine ⟨booked.here, sound.update _ fun _ => rfl, offered.places_eq.trans booked.places, fun place => ?_, ?_,
    (exams_set listed exam).trans booked.demands, booked.normals_set found exam normals,
    booked.waits_set found exam leaves, ?_, booked.shortfalls⟩
  · exact holds_occupy.trans ((offered.holds_iff booked.sound).trans (booked.holds place))
  · refine (booked.offer named offered).update sound ?_ present name.symm (fun _ => rfl) ?_
    · exact offered.places_eq ▸ booked.names named
    · rw [seatsFor_plain plain, left, name]
  · rw [book_concat, ← booked.entries, post, if_neg (by simp [plain])]
    exact congrArg (Round.merge · before.seatings) (by simp [booked.here, here, name, plain])

/-- A pin that is heard adds its line, and any other changes nothing. -/
theorem step (here : pin.slot = slot) (returned : before.pin threshold pin = .ok later) :
    ¬ Heard allocator blocked slot exams pin ∧ later = before ∨
      Heard allocator blocked slot exams pin ∧ Booked allocator records blocked slot exams
        (lines ++ [⟨pin, kept allocator.rooms records exams lines pin⟩]) later := by
  rcases pin_found returned with ⟨rfl, skipped⟩ | ⟨demand, index, place, pool, found, opened, done⟩
  · refine .inl ⟨fun ⟨⟨exam, member, same⟩, place, isOpen, name⟩ => ?_, rfl⟩
    rcases skipped with absent | closed
    · rw [← booked.demands] at member
      obtain ⟨demand, listed, rfl⟩ := List.mem_map.mp member
      obtain ⟨index, present⟩ := List.getElem?_of_mem listed
      simpa [same] using List.find?_eq_none.mp absent _ (List.mk_mem_zipIdx_iff_getElem?.mpr present)
    · have held := (booked.holds place).mpr isOpen
      obtain ⟨_, opened⟩ := exists_named (booked.names named) (held.known booked.sound) held
      rw [name, closed] at opened
      cases opened
  · obtain ⟨offered, name⟩ := offers_named booked.sound opened
    have listed := List.mk_mem_zipIdx_iff_getElem?.mp (List.mem_of_find?_eq_some found)
    have sits : demand.exam ∈ exams := booked.demands ▸ List.mem_map_of_mem (List.mem_of_getElem? listed)
    have own : demand.exam.ancode = pin.ancode := by simpa using List.find?_some found
    refine .inr ⟨⟨⟨_, sits, own⟩, place, (booked.holds place).mp offered.holds, name⟩, ?_⟩
    rcases done with ⟨reserved, rfl⟩ | ⟨plain, returned⟩
    · exact booked.echo named offered name reserved
    · exact booked.seat named offered name plain here found returned

/-- By induction on the pins: those that are heard make the ledger, and without the others it is the same. -/
theorem fold {keep : Seating → Bool} (here : ∀ pin ∈ pins, pin.slot = slot)
    (chosen : ∀ pin ∈ pins, keep pin = true ↔ Heard allocator blocked slot exams pin)
    (returned : pins.foldlM (·.pin threshold ·) before = .ok later) :
    Booked allocator records blocked slot exams (ledger allocator.rooms records exams lines (pins.filter keep)) later ∧
      (pins.filter keep).foldlM (·.pin threshold ·) before = .ok later := by
  induction pins generalizing before lines with
  | nil =>
    cases pure_ok returned
    exact ⟨booked, rfl⟩
  | cons pin pins ih =>
    rw [List.foldlM_cons] at returned
    obtain ⟨middle, first, following⟩ := bind_ok returned
    obtain ⟨own, here⟩ := List.forall_mem_cons.mp here
    obtain ⟨heard, chosen⟩ := List.forall_mem_cons.mp chosen
    rcases booked.step named own first with ⟨unheard, rfl⟩ | ⟨heeded, next⟩
    · rw [List.filter_cons_of_neg (mt heard.mp unheard)]
      exact ih booked here chosen following
    · obtain ⟨rest, again⟩ := ih next here chosen following
      rw [List.filter_cons_of_pos (heard.mpr heeded), List.foldlM_cons, ok_bind first]
      exact ⟨rest, again⟩

end

end Booked

theorem start_booked {start : Round} (started : allocator.start records blocked slot exams = .ok start) :
    Booked allocator records blocked slot exams [] start := by
  obtain ⟨here, seatings, shortfalls, -⟩ := start_empty started
  refine ⟨here, start_sound started, start_places started, fun place => start_holds started, ⟨?_, ?_⟩,
    start_exams started, ?_, ?_, seatings, shortfalls⟩
  · intro place _ line none
    cases none
  · rw [start_pool started]
    intro room used
    cases used
  · intro ancode demand found
    have known : exams.find? (·.ancode = ancode) = some demand.exam := by
      rw [← start_exams started, List.find?_map]
      exact congrArg (Option.map Demand.exam) found
    rw [start_normal started (List.mem_of_find?_eq_some found), normalsLeft, known]
    simp
  · rintro ancode exam member rfl student registered
    rw [← start_exams started] at member
    obtain ⟨demand, listed, rfl⟩ := List.mem_map.mp member
    have waiting := (start_pending started demand listed).mem_iff.mpr registered
    exact .inl (mem_remaining.mpr ⟨demand, listed, rfl, waiting⟩)

end Timetable.Proofs.PinLedger
