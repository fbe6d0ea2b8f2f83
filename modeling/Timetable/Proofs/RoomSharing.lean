import Timetable.Proofs.StudentDues

/-! Rooms that exams share. One exam opens a room and small rests of others join it, and a rest that joins is all
that was left of its exam, so no exam comes back to a room. -/

namespace Timetable.Proofs.RoomSharing
open SeatDemands SeatEntries SeatPool SeatingSteps SeatingPhases SlotRounds SeatReasons SeatMoves PinsAgain
  RoomsAlone ClosedRooms SeatingPasses StudentDues Returned

variable {allocator : Allocator} {records : List Accommodation} {params : RoomParams} {rooms : List Room}
  {config : Config} {agenda : Agenda Exam} {plan : RoomPlan} {blocked : List Block} {slot : Slot} {exams : List Exam}
  {exam : Exam} {ancode : Ancode} {place : Place} {pool : Pool} {start before after last round : Round}
  {demand rest : Demand} {index count passes : Nat} {entry other : Seating} {front back : List Seating}
  {students normals : List StudentId}

def normalsOf (records : List Accommodation) (exam : Exam) : List StudentId :=
  exam.registrants.filter fun student => Grant.of records student = .nothing

def seatsNormals (entry : Seating) : Bool := entry.isOccupied && !entry.accommodated

def seatsNormalsIn (slot : Slot) (entry : Seating) : Bool := seatsNormals entry && entry.slot = slot

def normalOf (slot : Slot) (ancode : Ancode) (entry : Seating) : Bool :=
  seatsNormalsIn slot entry && ofExam ancode entry

/-- A small rest of an exam: its last normal students, and fewer than make up for a room of their own. -/
structure Rest (records : List Accommodation) (params : RoomParams) (exams : List Exam) (ancode : Ancode)
    (students : List StudentId) : Prop where
  filled : students ≠ []
  few : students.length < params.smallResidual
  last : ∃ exam ∈ exams, exam.ancode = ancode ∧ students <:+ normalsOf records exam

/-- An entry with small rests and nobody else; there are several only where exams have an ancode in common. -/
def Rests (records : List Accommodation) (params : RoomParams) (exams : List Exam) (entry : Seating) : Prop :=
  ∃ rests, rests ≠ [] ∧ entry.students = rests.flatten ∧
    ∀ students ∈ rests, Rest records params exams entry.ancode students

theorem Rest.alone (rest : Rest records params exams entry.ancode entry.students) :
    Rests records params exams entry :=
  ⟨[entry.students], List.cons_ne_nil _ _, by simp, List.forall_mem_singleton.mpr rest⟩

theorem Rests.joined (rests : Rests records params exams entry)
    (rest : Rest records params exams entry.ancode students) :
    Rests records params exams { entry with students := entry.students ++ students } := by
  obtain ⟨others, some, all, each⟩ := rests
  refine ⟨others ++ [students], by simp, by simp [all], ?_⟩
  exact List.forall_mem_append.mpr ⟨each, List.forall_mem_singleton.mpr rest⟩

structure Lodged (pool : Pool) (slot : Slot) (entry : Seating) : Prop where
  slot : entry.slot = slot
  plain : entry.reserve = false
  normal : entry.accommodated = false
  room : entry.room ≠ Room.placeholder → ∃ used ∈ pool.used, used.place.room.name = entry.room ∧
    ⟨entry.ancode, entry.duration⟩ ∈ used.sittings

def Alike (pool : Pool) : Prop :=
  ∀ room ∈ pool.used, ∀ one ∈ room.sittings, ∀ other ∈ room.sittings, one.duration = other.duration

/-- An entry that shares the room of one before it has nobody but small rests. -/
def Follows (records : List Accommodation) (params : RoomParams) (exams : List Exam) (other entry : Seating) : Prop :=
  other.room = entry.room → entry.room ≠ Room.placeholder → Rests records params exams entry

structure Tidy (records : List Accommodation) (params : RoomParams) (exams : List Exam) (round : Round) : Prop where
  genuine : Genuine round.pool
  waiting : ∀ demand ∈ round.demands, demand.exam ∈ exams ∧ demand.normal <:+ normalsOf records demand.exam
  lodged : ∀ entry ∈ round.seatings, Lodged round.pool round.slot entry
  alike : Alike round.pool
  distinct : (round.seatings.map key).Nodup
  follows : round.seatings.Pairwise (Follows records params exams)

theorem Lodged.widened (lodged : Lodged pool slot entry) (students : List StudentId) :
    Lodged pool slot { entry with students } :=
  ⟨lodged.slot, lodged.plain, lodged.normal, lodged.room⟩

private theorem genuine_occupy {sitting : Sitting} (offered : Offers before.pool place pool)
    (genuine : Genuine before.pool) :
    Genuine (pool.occupy place sitting count) where
  sound := (offered.sound genuine.sound).update place fun _ => rfl
  named := by
    have same : (pool.occupy place sitting count).places = before.pool.places := offered.places_eq
    exact same ▸ genuine.named
  real := by
    have same : (pool.occupy place sitting count).places = before.pool.places := offered.places_eq
    exact same ▸ genuine.real

private theorem waiting_set (waiting : ∀ demand ∈ before.demands,
      demand.exam ∈ exams ∧ demand.normal <:+ normalsOf records demand.exam)
    (present : before.demands[index]? = some demand) (count : Nat) :
    ∀ other ∈ before.demands.set index (demand.dropNormal count),
      other.exam ∈ exams ∧ other.normal <:+ normalsOf records other.exam := by
  intro other member
  rcases List.mem_or_eq_of_mem_set member with member | rfl
  · exact waiting other member
  · obtain ⟨known, ends⟩ := waiting demand (List.mem_of_getElem? present)
    exact ⟨known, (List.drop_suffix count demand.normal).trans ends⟩

/-- Where a room is offered and what sits in it has the duration of the newcomers, all sittings stay alike. -/
theorem alike_occupy {sitting : Sitting} (alike : Alike pool)
    (suited : ∀ room ∈ pool.used, room.place.position = place.position →
      ∀ other ∈ room.sittings, other.duration = sitting.duration) : Alike (pool.occupy place sitting count) := by
  intro room used one first other second
  obtain ⟨former, present, -, known⟩ := occupied_before used
  rcases known one first with first | ⟨rfl, here⟩ <;> rcases known other second with second | ⟨rfl, there⟩
  · exact alike former present one first other second
  · exact suited former present there one first
  · exact (suited former present here other second).symm
  · rfl

/-- The entries that stand keep their rooms, and the new one has the room that is offered. -/
theorem lodged_seatFirst (offered : Offers before.pool place pool)
    (lodged : ∀ entry ∈ before.seatings, Lodged before.pool before.slot entry) :
    ∀ entry ∈ (seatFirst before demand index place pool count).seatings,
      Lodged (seatFirst before demand index place pool count).pool before.slot entry := by
  refine merge_all rfl (fun first _ held => held.widened _) ⟨rfl, rfl, rfl, fun _ => ?_⟩ fun entry member => ?_
  · obtain ⟨room, used, rfl⟩ := offered.exists_used
    obtain ⟨taken, present, same, -, -, own⟩ := occupied used
    exact ⟨taken, present, same ▸ rfl, (own rfl).1⟩
  · obtain ⟨here, plain, normal, housed⟩ := lodged entry member
    refine ⟨here, plain, normal, fun real => ?_⟩
    obtain ⟨room, used, name, sits⟩ := housed real
    obtain ⟨taken, present, same, kept, -⟩ := occupied (offered.stays used)
    exact ⟨taken, present, same ▸ name, kept _ sits⟩

namespace Tidy

variable (tidy : Tidy records params exams before)
include tidy

/-- Of the rooms in use only one has the name of a room that is known. -/
theorem place_eq {room : UsedRoom} (used : room ∈ before.pool.used) (known : place ∈ before.pool.places)
    (name : room.place.room.name = place.room.name) : room.place = place :=
  Lookups.eq_of_key tidy.genuine.named (tidy.genuine.sound.used_known _ used) known name

private theorem room_eq {one two : UsedRoom} (used : one ∈ before.pool.used) (known : two ∈ before.pool.used)
    (name : one.place.room.name = two.place.room.name) : one = two :=
  tidy.genuine.sound.used_eq used known
    (congrArg Place.position (tidy.place_eq used (tidy.genuine.sound.used_known _ known) name))

/-- A room that is free has no entry. -/
theorem unnamed (free : place ∈ before.pool.free) (member : entry ∈ before.seatings) :
    entry.room ≠ place.room.name := by
  intro same
  have known := tidy.genuine.sound.free_known _ free
  obtain ⟨room, used, name, -⟩ := (tidy.lodged entry member).room (same ▸ tidy.genuine.real _ known)
  exact tidy.genuine.sound.not_used free used
    (congrArg Place.position (tidy.place_eq used known (name.trans same)).symm)

/-- The first normal students of a demand leave a round tidy if the room they are offered suits their duration, and
if they are a small rest should anybody sit there. -/
theorem seatFirst (present : before.demands[index]? = some demand) (offered : Offers before.pool place pool)
    (alike : Alike pool)
    (suited : ∀ room ∈ pool.used, room.place.position = place.position →
      ∀ sitting ∈ room.sittings, sitting.duration = demand.exam.duration)
    (rest : ∀ other ∈ before.seatings, other.room = place.room.name →
      Rest records params exams demand.exam.ancode (demand.firstNormal count)) :
    Tidy records params exams (SeatMoves.seatFirst before demand index place pool count) where
  genuine := genuine_occupy offered tidy.genuine
  waiting := waiting_set tidy.waiting present count
  lodged := lodged_seatFirst offered tidy.lodged
  alike := alike_occupy alike suited
  distinct := keys_merge_nodup rfl tidy.distinct
  follows := by
    refine merge_pairwise rfl (fun _ _ _ => id) ?_ ?_ tidy.follows
    · intro first member same other follows room real
      have ancode : first.ancode = demand.exam.ancode := ancode_of_key same
      exact (follows room real).joined (ancode ▸ rest first member (room_of_key same))
    · intro other member room _
      exact (rest other member room).alone

theorem turnAway (present : before.demands[index]? = some demand) :
    Tidy records params exams (SeatMoves.turnAway before demand index) where
  genuine := tidy.genuine
  waiting := waiting_set tidy.waiting present demand.normal.length
  lodged := merge_all rfl (fun first _ held => held.widened _) ⟨rfl, rfl, rfl, fun real => absurd rfl real⟩ tidy.lodged
  alike := tidy.alike
  distinct := keys_merge_nodup rfl tidy.distinct
  follows := by
    refine merge_pairwise rfl (fun _ _ _ => id) ?_ ?_ tidy.follows
    · intro first member same other follows room real
      exact absurd (room_of_key same) real
    · intro other member room real
      exact absurd rfl real

theorem pass (present : before.demands[index]? = some demand) (waiting : demand.normal ≠ [])
    (pass : Pass params before demand index after) : Tidy records params exams after := by
  cases pass with
  | @joined room used few fits company alike suits =>
    refine tidy.seatFirst present (.inUse used) tidy.alike ?_ fun other member here => ?_
    · intro other listed same
      rw [tidy.genuine.sound.used_eq listed used same]
      exact alike
    · obtain ⟨known, ends⟩ := tidy.waiting demand (List.mem_of_getElem? present)
      rw [Demand.firstNormal, List.take_length]
      exact ⟨waiting, few, demand.exam, known, rfl, ends⟩
  | @opened place free roomy suits =>
    refine tidy.seatFirst present (.opened free) ?_ ?_ fun other member here => ?_
    · intro room used
      rcases List.mem_append.mp used with used | fresh
      · exact tidy.alike room used
      · rw [List.mem_singleton.mp fresh]
        exact List.forall_mem_nil _
    · intro room used same
      rcases List.mem_append.mp used with used | fresh
      · exact absurd same.symm (tidy.genuine.sound.not_used free used)
      · rw [List.mem_singleton.mp fresh]
        exact List.forall_mem_nil _
    · exact absurd here (tidy.unnamed free member)
  | away => exact tidy.turnAway present

end Tidy

/-- The only demand of an ancode is the one that is taken up, or it stays the only one. -/
theorem only_own {demands : List Demand} (only : demands.filter (·.exam.ancode = demand.exam.ancode) = [rest])
    (present : demands[index]? = some demand) (count : Nat) : rest = demand ∧
      (demands.set index (demand.dropNormal count)).filter (·.exam.ancode = demand.exam.ancode)
        = [demand.dropNormal count] := by
  obtain ⟨front, back, split, replaced⟩ := exists_split present
  have exam : (demand.dropNormal count).exam = demand.exam := rfl
  rw [split, List.filter_append, List.filter_cons_of_pos (by simp), List.append_eq_singleton_iff] at only
  rw [replaced, List.filter_append, List.filter_cons_of_pos (by simp [exam])]
  rcases only with ⟨before, single⟩ | ⟨-, none⟩
  · obtain ⟨rfl, after⟩ := List.cons_eq_cons.mp single
    exact ⟨rfl, by rw [before, after, List.nil_append]⟩
  · cases none

private theorem only_other {demands : List Demand} (present : demands[index]? = some demand)
    (apart : demand.exam.ancode ≠ ancode) (count : Nat) :
    (demands.set index (demand.dropNormal count)).filter (·.exam.ancode = ancode)
      = demands.filter (·.exam.ancode = ancode) := by
  obtain ⟨front, back, split, replaced⟩ := exists_split present
  have exam : (demand.dropNormal count).exam = demand.exam := rfl
  rw [replaced, split, List.filter_append, List.filter_append, List.filter_cons_of_neg (by simp [exam, apart]),
    List.filter_cons_of_neg (by simp [apart])]

def Full (pool : Pool) (name : RoomName) : Prop :=
  ∃ room ∈ pool.used, room.place.room.name = name ∧ room.seatsLeft = 0

/-- How far the seating of the only exam of an ancode has come: its normal students are noted in their order, those
still waiting are the others, and as long as there are any its rooms are full. -/
structure Progress (ancode : Ancode) (normals : List StudentId) (round : Round) (demand : Demand) : Prop where
  only : round.demands.filter (·.exam.ancode = ancode) = [demand]
  noted : studentsOf (normalOf round.slot ancode) round.seatings <+: normals
  waits : demand.normal ≠ [] → studentsOf (normalOf round.slot ancode) round.seatings ++ demand.normal = normals
  full : demand.normal ≠ [] → ∀ entry ∈ round.seatings.filter (normalOf round.slot ancode), Full round.pool entry.room

/-- A room without seats left never has any again. -/
theorem full_seatFirst (offered : Offers before.pool place pool) {name : RoomName} (full : Full before.pool name) :
    Full (seatFirst before demand index place pool count).pool name := by
  obtain ⟨room, used, named, none⟩ := full
  obtain ⟨taken, present, same, -, fewer, -⟩ := occupied (offered.stays used)
  exact ⟨taken, present, same ▸ named, Nat.le_zero.mp (none ▸ fewer)⟩

theorem Pass.full (pass : Pass params before demand index after) {name : RoomName} (full : Full before.pool name) :
    Full after.pool name := by
  cases pass with
  | joined used => exact full_seatFirst (.inUse used) full
  | opened free => exact full_seatFirst (.opened free) full
  | away => exact full

/-- A room that is opened for more than it seats is full at once. -/
theorem opened_full (waits : (demand.dropNormal (min place.room.seats demand.normal.length)).normal ≠ []) :
    Full (seatFirst before demand index place (before.pool.openRoom place)
      (min place.room.seats demand.normal.length)).pool place.room.name := by
  have fresh : ⟨place, place.room.seats, []⟩ ∈ (before.pool.openRoom place).used :=
    List.mem_append_right _ (List.mem_singleton_self _)
  obtain ⟨taken, present, same, -, -, own⟩ := occupied fresh
  refine ⟨taken, present, congrArg (·.room.name) same, (own rfl).2.trans ?_⟩
  have short := List.length_pos_iff.mpr waits
  rw [Demand.dropNormal, List.length_drop] at short
  dsimp only
  omega

private theorem normalOf_other {entry : Seating} (apart : entry.ancode ≠ ancode) :
    normalOf slot ancode entry = false := by
  simp [normalOf, ofExam, apart]

/-- A pass for one exam does not touch the entries of others. -/
theorem Pass.noted_other (pass : Pass params before demand index after) (apart : demand.exam.ancode ≠ ancode) :
    after.slot = before.slot ∧ after.seatings.filter (normalOf before.slot ancode)
      = before.seatings.filter (normalOf before.slot ancode) := by
  cases pass <;> exact ⟨rfl, merge_other (fun _ => rfl) rfl (normalOf_other apart) _⟩

theorem Progress.elsewhere (progress : Progress ancode normals before rest)
    (pass : Pass params before demand index after) (present : before.demands[index]? = some demand)
    (apart : demand.exam.ancode ≠ ancode) : Progress ancode normals after rest := by
  obtain ⟨slot, same⟩ := Pass.noted_other pass apart
  have students := studentsOf_congr same
  refine ⟨?_, ?_, fun waiting => ?_, fun waiting => ?_⟩
  · cases pass <;> exact (only_other present apart _).trans progress.only
  · rw [slot, students]
    exact progress.noted
  · rw [slot, students]
    exact progress.waits waiting
  · rw [slot, same]
    exact fun entry noted => Pass.full pass (progress.full waiting entry noted)

/-- The first normal students of an exam get an entry of their own in a room where it is not noted yet. -/
theorem noted_seatFirst (real : place.room.name ≠ Room.placeholder)
    (absent : ∀ entry ∈ before.seatings.filter (normalOf before.slot demand.exam.ancode),
      entry.room ≠ place.room.name) :
    (seatFirst before demand index place pool count).seatings.filter (normalOf before.slot demand.exam.ancode)
      = before.seatings.filter (normalOf before.slot demand.exam.ancode) ++
        [⟨before.slot, place.room.name, demand.exam.ancode, demand.exam.duration, demand.firstNormal count, false,
          false⟩] := by
  have chosen : normalOf before.slot demand.exam.ancode ⟨before.slot, place.room.name, demand.exam.ancode,
      demand.exam.duration, demand.firstNormal count, false, false⟩ = true := by
    simp [normalOf, seatsNormalsIn, ofExam, seatsNormals, Seating.isOccupied, Seating.isPlaceholder, real]
  rw [seatFirst, merge_fresh rfl, List.filter_append, List.filter_singleton, chosen, cond_true]
  intro listed
  obtain ⟨first, member, same⟩ := List.mem_map.mp listed
  have kind : normalOf before.slot demand.exam.ancode first = true :=
    (kind_of_key (fun _ => rfl) same).trans chosen
  exact absent first (List.mem_filter.mpr ⟨member, kind⟩) (room_of_key same)

/-- Where an exam is not noted yet its first students follow those before them, and the others wait. -/
theorem Progress.seatFirst (progress : Progress demand.exam.ancode normals before rest)
    (present : before.demands[index]? = some demand) (waiting : demand.normal ≠ [])
    (real : place.room.name ≠ Room.placeholder)
    (absent : ∀ entry ∈ before.seatings.filter (normalOf before.slot demand.exam.ancode),
      entry.room ≠ place.room.name)
    (full : (demand.dropNormal count).normal ≠ [] → ∀ entry ∈
      (SeatMoves.seatFirst before demand index place pool count).seatings.filter
        (normalOf before.slot demand.exam.ancode),
      Full (SeatMoves.seatFirst before demand index place pool count).pool entry.room) :
    Progress demand.exam.ancode normals (SeatMoves.seatFirst before demand index place pool count)
      (demand.dropNormal count) := by
  obtain ⟨rfl, only⟩ := only_own progress.only present count
  have students : studentsOf (normalOf before.slot rest.exam.ancode)
      (SeatMoves.seatFirst before rest index place pool count).seatings
        = studentsOf (normalOf before.slot rest.exam.ancode) before.seatings ++ rest.firstNormal count := by
    rw [studentsOf, noted_seatFirst real absent, List.flatMap_append, List.flatMap_singleton, studentsOf]
  have parts : studentsOf (normalOf before.slot rest.exam.ancode)
      (SeatMoves.seatFirst before rest index place pool count).seatings ++ (rest.dropNormal count).normal
        = normals := by
    rw [students, List.append_assoc, Demand.firstNormal, Demand.dropNormal, List.take_append_drop]
    exact progress.waits waiting
  exact ⟨only, ⟨_, parts⟩, fun _ => parts, full⟩

/-- An exam with students left never comes to a room again where it is noted: that room is full. -/
theorem Progress.own (progress : Progress demand.exam.ancode normals before rest)
    (tidy : Tidy records params exams before) (pass : Pass params before demand index after)
    (present : before.demands[index]? = some demand) (waiting : demand.normal ≠ []) :
    ∃ left, Progress demand.exam.ancode normals after left := by
  obtain ⟨rfl, -⟩ := only_own progress.only present 0
  cases pass with
  | @joined room used few fits company alike suits =>
    have known := tidy.genuine.sound.used_known _ used
    refine ⟨_, progress.seatFirst present waiting (tidy.genuine.real _ known) ?_ ?_⟩
    · intro entry noted here
      obtain ⟨full, listed, name, none⟩ := progress.full waiting entry noted
      obtain rfl := tidy.room_eq listed used (name.trans here)
      rw [none, Nat.le_zero, List.length_eq_zero_iff] at fits
      exact waiting fits
    · exact absurd List.drop_length
  | @opened place free roomy suits =>
    have known := tidy.genuine.sound.free_known _ free
    have real := tidy.genuine.real _ known
    have absent : ∀ entry ∈ before.seatings.filter (normalOf before.slot rest.exam.ancode),
        entry.room ≠ place.room.name :=
      fun entry noted => tidy.unnamed free (List.mem_filter.mp noted).1
    refine ⟨_, progress.seatFirst present waiting real absent ?_⟩
    intro left entry noted
    rw [noted_seatFirst real absent, List.mem_append, List.mem_singleton] at noted
    rcases noted with noted | rfl
    · exact full_seatFirst (.opened free) (progress.full waiting entry noted)
    · exact opened_full left
  | away =>
    have same : (turnAway before rest index).seatings.filter (normalOf before.slot rest.exam.ancode)
        = before.seatings.filter (normalOf before.slot rest.exam.ancode) := by
      refine merge_other (fun _ => rfl) rfl ?_ _
      simp [normalOf, seatsNormalsIn, seatsNormals, Seating.isOccupied, Seating.isPlaceholder]
    refine ⟨_, (only_own progress.only present _).2, ?_, absurd List.drop_length, absurd List.drop_length⟩
    have students := studentsOf_congr same
    exact students ▸ progress.noted

private theorem passes_tidy (run : Passes params before passes last) (tidy : Tidy records params exams before) :
    Tidy records params exams last :=
  run.keeps (Tidy records params exams) (fun _ present waiting _ pass tidy => tidy.pass present waiting pass)
    tidy.genuine.sound tidy

private theorem passes_progress (run : Passes params before passes last) (tidy : Tidy records params exams before)
    (progress : ∃ rest, Progress ancode normals before rest) : ∃ rest, Progress ancode normals last rest := by
  refine (run.keeps (fun round => Tidy records params exams round ∧ ∃ rest, Progress ancode normals round rest)
    ?_ tidy.genuine.sound ⟨tidy, progress⟩).2
  rintro before after demand index - present waiting - pass ⟨tidy, rest, progress⟩
  refine ⟨tidy.pass present waiting pass, ?_⟩
  by_cases own : demand.exam.ancode = ancode
  · subst own
    exact progress.own tidy pass present waiting
  · exact ⟨rest, progress.elsewhere pass present own⟩

private theorem start_tidy (started : allocator.start records blocked slot exams = .ok start)
    (named : (allocator.rooms.map (·.name)).Nodup) (real : ∀ room ∈ allocator.rooms, room.name ≠ Room.placeholder) :
    Tidy records params exams start where
  genuine := start_genuine started named real
  waiting demand member := by
    rw [start_normal started member, ← start_exams started]
    exact ⟨List.mem_map_of_mem member, List.suffix_refl _⟩
  lodged := by
    rw [(start_empty started).2.1]
    exact nofun
  alike := by
    rw [start_pool started]
    exact nofun
  distinct := by
    rw [(start_empty started).2.1]
    exact List.nodup_nil
  follows := by
    rw [(start_empty started).2.1]
    exact .nil

/-- At the beginning all normal students wait, and none is noted. -/
theorem start_progress (started : allocator.start records blocked slot exams = .ok start)
    (only : exams.filter (·.ancode = ancode) = [exam]) :
    ∃ demand, Progress ancode (normalsOf records exam) start demand := by
  rw [← start_exams started, List.filter_map, List.map_eq_singleton_iff] at only
  obtain ⟨demand, only, rfl⟩ := only
  have member : demand ∈ start.demands := (List.mem_filter.mp (only ▸ List.mem_singleton_self demand)).1
  have empty := (start_empty started).2.1
  refine ⟨demand, only, ?_, fun _ => ?_, fun _ => ?_⟩
  · rw [empty]
    exact List.nil_prefix
  · rw [empty]
    exact start_normal started member
  · rw [empty]
    exact nofun

/-- Entries for students who are granted something are marked or have no room. -/
theorem granted_marked {places : List Place} {owed : Exam → StudentId → Prop} {entries : List Seating}
    (serves : Serves records places owed entries)
    (granted : ∀ exam student, owed exam student → reasonFor records student ≠ .noCompatibleRoom) :
    ∀ entry ∈ entries, seatsNormals entry = false := by
  intro entry member
  obtain ⟨exam, due, waits⟩ := serves.each entry member
  obtain ⟨student, seated⟩ := List.exists_mem_of_ne_nil _ due.filled
  cases due.placed with
  | seated _ _ _ marked =>
    have accommodated := (marked student seated).mpr (granted exam student (waits student seated))
    simp [seatsNormals, accommodated]
  | away nowhere => simp [seatsNormals, Seating.isOccupied, Seating.isPlaceholder, nowhere]

/-- The entries for normal students are those of the loop: whoever is seated later is granted something. -/
theorem slot_normals (named : (allocator.rooms.map (·.name)).Nodup)
    (real : ∀ room ∈ allocator.rooms, room.name ≠ Room.placeholder)
    (returned : allocator.allocateSlot records [] blocked slot exams = .ok round) :
    ∃ last, round.seatings.filter seatsNormals = last.seatings.filter seatsNormals ∧
      Tidy records allocator.params exams last ∧
      ∀ ancode exam, exams.filter (·.ancode = ancode) = [exam] →
        ∃ rest, Progress ancode (normalsOf records exam) last rest := by
  obtain ⟨start, started, returned⟩ := bind_ok returned
  obtain ⟨middle, none, returned⟩ := bind_ok returned
  obtain rfl := pure_ok none
  obtain ⟨last, normals, returned⟩ := bind_ok returned
  obtain ⟨final, others, returned⟩ := bind_ok returned
  obtain rfl := pure_ok returned
  have tidy : Tidy records allocator.params exams start := start_tidy started named real
  have timed := start_timed started
  obtain ⟨seated, granted, phases⟩ := exists_phases tidy.genuine.sound timed normals others
  obtain ⟨passes, run⟩ := phases.passes
  obtain ⟨kept, seatings, reserves⟩ := keepReserves_kept allocator.params.reserveMinStudents final
    ((phases.first.append phases.second).sound tidy.genuine.sound)
  refine ⟨last, ?_, passes_tidy run tidy, fun ancode exam only => passes_progress run tidy (start_progress started only)⟩
  have later : final.seatings.filter seatsNormals = last.seatings.filter seatsNormals := by
    refine phases.second.filter_other (fun _ => rfl) (granted_marked phases.others ?_)
    rintro exam student ⟨demand, member, -, waits⟩
    exact (timed demand member).granted waits
  have none : kept.filter seatsNormals = [] := by
    refine List.filter_eq_nil_iff.mpr fun entry member => ?_
    obtain ⟨demand, -, reserve⟩ := reserves entry member
    simp [seatsNormals, Seating.isOccupied, reserve.reserved]
  rw [seatings, List.filter_append, later, none, List.append_nil]

/-- Two ends of a list have an item in common, unless one is empty. -/
theorem suffixes_meet {α : Type} {items first second : List α} (one : first <:+ items) (other : second <:+ items)
    (some : first ≠ []) (any : second ≠ []) : ∃ item ∈ first, item ∈ second := by
  refine ⟨first.getLast some, List.getLast_mem some, ?_⟩
  rw [one.getLast some, ← other.getLast any]
  exact List.getLast_mem any

/-- Where each item is noted once, only one end of the list can be noted, and it is all that is not noted before. -/
theorem single_end {α : Type} [DecidableEq α] {items before after : List α} {ends : List (List α)}
    (distinct : items.Nodup) (noted : before ++ ends.flatten ++ after <+: items) (some : ends ≠ [])
    (each : ∀ last ∈ ends, last ≠ [] ∧ last <:+ items) :
    ∃ last, ends = [last] ∧ last = items.filter (· ∉ before) := by
  obtain ⟨last, others, rfl⟩ := List.exists_cons_of_ne_nil some
  obtain ⟨tail, rfl⟩ := noted
  rw [List.flatten_cons, List.append_assoc, List.append_assoc, List.append_assoc] at distinct each ⊢
  obtain ⟨own, remaining⟩ := List.forall_mem_cons.mp each
  have apart := (List.nodup_append.mp distinct).2.1
  have beyond : others.flatten ++ (after ++ tail) = [] := by
    by_contra more
    obtain ⟨item, first, second⟩ := suffixes_meet own.2
      (List.suffix_append_of_suffix (List.suffix_append last _)) own.1 more
    exact List.disjoint_of_nodup_append apart first second
  have none : others = [] := by
    refine List.eq_nil_iff_forall_not_mem.mpr fun other listed => (remaining other listed).1 ?_
    exact List.flatten_eq_nil_iff.mp (List.append_eq_nil_iff.mp beyond).1 other listed
  rw [beyond, List.append_nil] at distinct ⊢
  refine ⟨last, by rw [none], ?_⟩
  rw [filter_back (by simp), List.filter_eq_self.mpr]
  intro item inside
  exact decide_eq_true fun early => List.disjoint_of_nodup_append distinct early inside

/-- What shares a room with an entry before it: small rests, and where no other exam of the slot has the ancode just
one, which is everybody of the exam whom the entries before it have not seated. -/
structure Joins (records : List Accommodation) (params : RoomParams) (exams : List Exam) (front : List Seating)
    (entry : Seating) : Prop where
  rests : Rests records params exams entry
  whole : ∀ exam, exams.filter (·.ancode = entry.ancode) = [exam] → entry.students.length < params.smallResidual ∧
    entry.students = (normalsOf records exam).filter (· ∉ studentsOf (normalOf entry.slot entry.ancode) front)

private theorem Tidy.duration_eq (tidy : Tidy records params exams round) (one : other ∈ round.seatings)
    (two : entry ∈ round.seatings) (room : other.room = entry.room) (real : entry.room ≠ Room.placeholder) :
    other.duration = entry.duration := by
  obtain ⟨first, listed, name, sits⟩ := (tidy.lodged other one).room (room ▸ real)
  obtain ⟨second, used, here, stays⟩ := (tidy.lodged entry two).room real
  obtain rfl := tidy.room_eq listed used (name.trans (room.trans here.symm))
  exact tidy.alike first listed _ sits _ stays

/-- An exam does not come back to a room: its entries there would have one key. -/
theorem Tidy.ancode_ne (tidy : Tidy records params exams round)
    (split : round.seatings.filter seatsNormals = front ++ entry :: back) (earlier : other ∈ front)
    (room : other.room = entry.room) (duration : other.duration = entry.duration) : other.ancode ≠ entry.ancode := by
  intro same
  have distinct : ((front ++ entry :: back).map key).Nodup :=
    split ▸ tidy.distinct.sublist (List.filter_sublist.map key)
  have lodged : ∀ item ∈ front ++ entry :: back, Lodged round.pool round.slot item :=
    fun item member => tidy.lodged item (List.mem_filter.mp (split ▸ member)).1
  have one := lodged other (List.mem_append_left _ earlier)
  have two := lodged entry (List.mem_append_right _ List.mem_cons_self)
  rw [List.map_append, List.nodup_append] at distinct
  refine distinct.2.2 (key other) (List.mem_map_of_mem earlier) (key entry) (by simp) ?_
  simp [key, one.slot, one.plain, one.normal, two.slot, two.plain, two.normal, room, duration, same]

private theorem normalOf_chosen (chosen : seatsNormals entry = true) :
    normalOf entry.slot entry.ancode entry = true := by
  simp [normalOf, seatsNormalsIn, ofExam, chosen]

private theorem seatsNormals_real (chosen : seatsNormals entry = true) : entry.room ≠ Room.placeholder := by
  simp only [seatsNormals, Seating.isOccupied, Seating.isPlaceholder, Bool.and_eq_true, Bool.not_eq_true',
    decide_eq_false_iff_not] at chosen
  exact chosen.1.1

theorem Tidy.joins (tidy : Tidy records params exams round)
    (progress : ∀ ancode exam, exams.filter (·.ancode = ancode) = [exam] →
      ∃ rest, Progress ancode (normalsOf records exam) round rest)
    (split : round.seatings.filter seatsNormals = front ++ entry :: back) (earlier : other ∈ front)
    (room : other.room = entry.room) : Joins records params exams front entry := by
  have listed : entry ∈ round.seatings.filter seatsNormals := split ▸ List.mem_append_right _ List.mem_cons_self
  obtain ⟨member, chosen⟩ := List.mem_filter.mp listed
  have rests : Rests records params exams entry := by
    have follows := tidy.follows.sublist (List.filter_sublist (p := seatsNormals))
    rw [split, List.pairwise_append] at follows
    exact follows.2.2 other earlier entry List.mem_cons_self room (seatsNormals_real chosen)
  refine ⟨rests, fun exam only => ?_⟩
  obtain ⟨ends, some, all, each⟩ := rests
  obtain ⟨rest, progress⟩ := progress entry.ancode exam only
  have noted := progress.noted
  rw [← (tidy.lodged entry member).slot, ← studentsOf_within seatsNormals (by simp +contextual [normalOf, seatsNormalsIn]), split,
    studentsOf_append, studentsOf_cons, studentsOf_chosen (normalOf_chosen chosen), all, ← List.append_assoc] at noted
  have distinct : (normalsOf records exam).Nodup := (Ordering.eraseDups_nodup _).filter _
  obtain ⟨last, rfl, same⟩ := single_end distinct noted some fun students listed => by
    obtain ⟨filled, few, other, known, ancode, ends⟩ := each students listed
    have own : other ∈ exams.filter (·.ancode = entry.ancode) :=
      List.mem_filter.mpr ⟨known, decide_eq_true ancode⟩
    rw [only, List.mem_singleton] at own
    exact ⟨filled, own ▸ ends⟩
  rw [List.flatten_singleton] at all
  exact ⟨all ▸ (each last (List.mem_singleton_self last)).few, all.trans same⟩

/-- Rooms are shared with small rests: of two entries for normal students in one room and slot, the exams differ,
the durations do not, and the later entry has joined the earlier one. -/
theorem small_rests_share_rooms (named : (rooms.map (·.name)).Nodup)
    (real : ∀ room ∈ rooms, room.name ≠ Room.placeholder) (slots : (agenda.map (·.1)).Nodup)
    (returned : (Allocator.ofConfig rooms config).allocate agenda records [] = .ok plan)
    (split : plan.seatings = front ++ entry :: back) (earlier : other ∈ front) (slot : other.slot = entry.slot)
    (room : other.room = entry.room) (one : seatsNormals other = true) (two : seatsNormals entry = true) :
    other.duration = entry.duration ∧ other.ancode ≠ entry.ancode ∧
      ∃ exams, (entry.slot, exams) ∈ agenda ∧ Joins records config.rooms exams front entry := by
  have member : entry ∈ plan.seatings := split ▸ List.mem_append_right _ List.mem_cons_self
  obtain ⟨exams, blocked, round, present, allocated, entries, -⟩ := entry_round slots returned member
  obtain ⟨last, same, tidy, progress⟩ :=
    slot_normals (ofConfig_named named config) (ofConfig_real real config) allocated
  have parted : last.seatings.filter seatsNormals
      = front.filter (seatsNormalsIn entry.slot) ++ entry :: back.filter (seatsNormalsIn entry.slot) := by
    rw [← same, ← entries, List.filter_filter]
    change plan.seatings.filter (seatsNormalsIn entry.slot) = _
    rw [split, List.filter_append, List.filter_cons_of_pos (by simp [seatsNormalsIn, two])]
  have inside : other ∈ front.filter (seatsNormalsIn entry.slot) :=
    List.mem_filter.mpr ⟨earlier, by simp [seatsNormalsIn, one, slot]⟩
  have left : other ∈ last.seatings :=
    (List.mem_filter.mp (parted ▸ List.mem_append_left _ inside)).1
  have right : entry ∈ last.seatings :=
    (List.mem_filter.mp (parted ▸ List.mem_append_right _ List.mem_cons_self)).1
  have duration := tidy.duration_eq left right room (seatsNormals_real two)
  obtain ⟨rests, whole⟩ := tidy.joins progress parted inside room
  refine ⟨duration, tidy.ancode_ne parted inside room duration, exams, present, rests, ?_⟩
  rwa [studentsOf_within (seatsNormalsIn entry.slot) (by simp +contextual [normalOf])] at whole

def fourAndTwo : Agenda Exam :=
  [(⟨1, 1⟩, [{ examOf 1 "a" with registrations := [⟨"IF", ["a", "b", "c", "d"]⟩] },
    { examOf 2 "e" with registrations := [⟨"IF", ["e", "f"]⟩] }])]

def normalSeat (room : RoomName) (ancode : Ancode) (students : List StudentId) : Seating :=
  { slot := ⟨1, 1⟩, room, ancode, duration := 90, students, accommodated := false, reserve := false }

def pairsApart : Config := { rooms := { smallResidual := 2 } }

def firstSeats : List Seating := [normalSeat "R1" 1 ["a", "b", "c"], normalSeat "R2" 2 ["e", "f"]]

theorem fourth_student_joins_two : ∃ plan,
    (Allocator.ofConfig [plainRoom "R1" 3, plainRoom "R2" 3] pairsApart).allocate fourAndTwo [] [] = .ok plan ∧
      plan.seatings = firstSeats ++ normalSeat "R2" 1 ["d"] :: [] ∧
      ∃ exams, (⟨1, 1⟩, exams) ∈ fourAndTwo ∧
        Joins [] pairsApart.rooms exams firstSeats (normalSeat "R2" 1 ["d"]) := by
  have named : ([plainRoom "R1" 3, plainRoom "R2" 3].map (·.name)).Nodup := by decide
  have real : ∀ room ∈ [plainRoom "R1" 3, plainRoom "R2" 3], room.name ≠ Room.placeholder := by decide
  have slots : (fourAndTwo.map (·.1)).Nodup := by decide
  obtain ⟨plan, returned, seatings⟩ : ∃ plan,
      (Allocator.ofConfig [plainRoom "R1" 3, plainRoom "R2" 3] pairsApart).allocate fourAndTwo [] [] = .ok plan ∧
        plan.seatings = firstSeats ++ normalSeat "R2" 1 ["d"] :: [] :=
    ⟨_, rfl, rfl⟩
  have earlier : normalSeat "R2" 2 ["e", "f"] ∈ firstSeats := by decide
  exact ⟨plan, returned, seatings,
    (small_rests_share_rooms named real slots returned seatings earlier rfl rfl (by decide) (by decide)).2.2⟩

/-- Two exams of one ancode have one entry in a room, and their rests together are no small one. -/
theorem rests_of_one_ancode_add_up :
    ([plainRoom "R1" 3, plainRoom "R2" 2].map (·.name)).Nodup ∧
    (∀ room ∈ [plainRoom "R1" 3, plainRoom "R2" 2], room.name ≠ Room.placeholder) ∧
    ∃ plan, (Allocator.ofConfig [plainRoom "R1" 3, plainRoom "R2" 2] pairsApart).allocate
        [(⟨1, 1⟩, [examOf 1 "a", examOf 2 "b", examOf 2 "c"])] [] [] = .ok plan ∧
      ∃ first second, plan.seatings = [first, second] ∧ first.slot = second.slot ∧ first.room = second.room ∧
        seatsNormals first = true ∧ seatsNormals second = true ∧
        ¬ second.students.length < pairsApart.rooms.smallResidual :=
  ⟨by decide, by decide, _, rfl, normalSeat "R1" 1 ["a"], normalSeat "R1" 2 ["c", "b"], rfl, rfl, rfl, by decide,
    by decide, by decide⟩

end Timetable.Proofs.RoomSharing
