import Timetable.Proofs.RoomCapacity
import Timetable.Proofs.SeatedStudents
import Timetable.Proofs.SeatMoves

/-! Rooms that a student has alone. Nobody else is noted for such a room, and who was turned away before
it was taken could not have used it either. -/

namespace Timetable.Proofs.RoomsAlone
open SeatDemands SeatEntries SeatPool SeatingSteps SeatingPhases SlotRounds RoomCapacity SeatedStudents
  SeatReasons SeatMoves Returned

variable {pool opened : Pool} {place : Place} {threshold : Nat} {before middle after : Round} {entry : Seating}
  {entries : List Seating} {exam : Exam} {demand : Demand} {records : List Accommodation} {exams : List Exam}
  {student : StudentId} {shortfall : Shortfall}

/-- Rooms are told apart by their names, and none is named like the placeholder. -/
structure Genuine (pool : Pool) : Prop where
  sound : Sound pool
  named : (pool.places.map (·.room.name)).Nodup
  real : ∀ place ∈ pool.places, place.room.name ≠ Room.placeholder

theorem Genuine.step (genuine : Genuine before.pool) (step : Step threshold before entry after) :
    Genuine after.pool where
  sound := step.sound genuine.sound
  named := step.places_eq ▸ genuine.named
  real := step.places_eq ▸ genuine.real

theorem Genuine.run (genuine : Genuine before.pool) (run : Run threshold before entries after) :
    Genuine after.pool :=
  run.preserves (fun round => Genuine round.pool) (fun step genuine => genuine.step step) genuine

/-- Who sits in a room: nobody, students with company, or one student in a room taken for them. -/
inductive Lodges (records : List Accommodation) (round : Round) (place : Place) : Prop where
  | empty (nobody : studentsOf (seatedIn place.room.name) round.seatings = [])
  | shared (used : ∃ room ∈ round.pool.used, room.place = place)
      (company : ∀ student ∈ studentsOf (seatedIn place.room.name) round.seatings,
        reasonFor records student ≠ .noRoomToSitAlone)
  | alone {student : StudentId} (closed : ¬ Holds round.pool place)
      (single : studentsOf (seatedIn place.room.name) round.seatings = [student])
      (needed : reasonFor records student = .noRoomToSitAlone)

private theorem seated_elsewhere (step : Step threshold before entry after) (elsewhere : entry.room ≠ place.room.name) :
    (studentsOf (seatedIn place.room.name) after.seatings).Perm
      (studentsOf (seatedIn place.room.name) before.seatings) := by
  have listed : (studentsOf (seatedIn place.room.name) after.seatings).Perm _ := step.students fun _ => rfl
  rwa [studentsOf_other (by simp [seatedIn, elsewhere]), List.append_nil] at listed

private theorem seated_here (step : Step threshold before entry after) (plain : entry.reserve = false)
    (here : entry.room = place.room.name) :
    (studentsOf (seatedIn place.room.name) after.seatings).Perm
      (studentsOf (seatedIn place.room.name) before.seatings ++ entry.students) := by
  have listed : (studentsOf (seatedIn place.room.name) after.seatings).Perm _ := step.students fun _ => rfl
  rwa [studentsOf_chosen (by simp [seatedIn, plain, here])] at listed

theorem used_kept (step : Step threshold before entry after) (used : ∃ room ∈ before.pool.used, room.place = place) :
    ∃ room ∈ after.pool.used, room.place = place := by
  obtain ⟨room, present, rfl⟩ := used
  have updates {pool : Pool} {other : Place} {change : UsedRoom → UsedRoom} (listed : room ∈ pool.used)
      (fixed : ∀ room, (change room).place = room.place) :
      ∃ changed ∈ (pool.update other change).used, changed.place = room.place := by
    refine ⟨_, List.mem_map_of_mem listed, ?_⟩
    split <;> simp [fixed]
  cases step with
  | seat offered => exact updates (offered.stays present) fun _ => rfl
  | alone => exact ⟨room, present, rfl⟩
  | short => exact ⟨room, present, rfl⟩
  | echo offered => exact updates (offered.stays present) fun _ => rfl
  | keep => exact ⟨room, present, rfl⟩

/-- A room keeps what it has as long as others are seated. -/
theorem Lodges.elsewhere (lodges : Lodges records before place) (step : Step threshold before entry after)
    (sound : Sound before.pool) (elsewhere : entry.room ≠ place.room.name) : Lodges records after place := by
  have same := seated_elsewhere step elsewhere
  cases lodges with
  | empty nobody => exact .empty (List.perm_nil.mp (nobody ▸ same))
  | shared used company => exact .shared (used_kept step used) fun student seated => company student (same.mem_iff.mp seated)
  | alone closed single needed =>
    exact .alone (fun held => closed (step.holds sound held)) (List.perm_singleton.mp (single ▸ same)) needed

theorem Move.lodges (move : Move records threshold exam before entry after) (genuine : Genuine before.pool)
    (known : place ∈ before.pool.places) (lodges : Lodges records before place) : Lodges records after place := by
  obtain ⟨sound, named, real⟩ := genuine
  by_cases elsewhere : entry.room ≠ place.room.name
  · exact lodges.elsewhere move.step sound elsewhere
  have here := not_not.mp elsewhere
  have seated := seated_here move.step move.plain here
  cases move.turn with
  | @shared other held room used _ company =>
    obtain rfl := Lookups.eq_of_key named (held.known sound) known (room.symm.trans here)
    refine .shared used ?_
    intro student noted
    rcases List.mem_append.mp (seated.mem_iff.mp noted) with noted | noted
    · cases lodges with
      | empty nobody =>
        rw [nobody] at noted
        cases noted
      | shared _ others => exact others student noted
      | alone closed => exact absurd held closed
    · exact company student noted
  | @alone other student free _ room taken single needed =>
    obtain rfl := Lookups.eq_of_key named (sound.free_known _ free) known (room.symm.trans here)
    have nobody : studentsOf (seatedIn other.room.name) before.seatings = [] := by
      cases lodges with
      | empty nobody => exact nobody
      | shared used =>
        obtain ⟨room, present, same⟩ := used
        exact absurd (congrArg Place.position same.symm) (sound.not_used free present)
      | alone closed => exact absurd (.inl free) closed
    rw [nobody, List.nil_append, single] at seated
    exact .alone (taken ▸ not_holds_take sound free) (List.perm_singleton.mp seated) needed
  | short room => exact absurd (here.symm.trans room) (real place known)

def Explained (records : List Accommodation) (round : Round) : Prop :=
  ∀ ancode, ∀ student ∈ studentsOf (unplaced ancode) round.seatings,
    ∃ shortfall ∈ round.shortfalls, shortfall.ancode = ancode ∧ shortfall.reason = reasonFor records student

def Justified (exams : List Exam) (round : Round) : Prop :=
  ∀ shortfall ∈ round.shortfalls, ∀ exam ∈ exams, exam.ancode = shortfall.ancode →
    Denied shortfall.reason exam round.pool

/-- The rooms of those who sit alone do not suit exams whose normal students were turned away. -/
def Barred (records : List Accommodation) (exams : List Exam) (round : Round) : Prop :=
  ∀ shortfall ∈ round.shortfalls, shortfall.reason = .noCompatibleRoom → ∀ exam ∈ exams,
    exam.ancode = shortfall.ancode → ∀ place ∈ round.pool.places,
      ∀ student ∈ studentsOf (seatedIn place.room.name) round.seatings,
        reasonFor records student = .noRoomToSitAlone → (RoomNeeds.ofExam exam).satisfiedBy place.room = false

theorem Move.explained (move : Move records threshold exam before entry after) (genuine : Genuine before.pool)
    (explained : Explained records before) : Explained records after := by
  intro ancode student noted
  have listed : (studentsOf (unplaced ancode) after.seatings).Perm _ := move.step.students fun _ => rfl
  rw [listed.mem_iff, List.mem_append] at noted
  have kept (grows : ∀ shortfall ∈ before.shortfalls, shortfall ∈ after.shortfalls)
      (noted : student ∈ studentsOf (unplaced ancode) before.seatings) :
      ∃ shortfall ∈ after.shortfalls, shortfall.ancode = ancode ∧
        shortfall.reason = reasonFor records student := by
    obtain ⟨shortfall, member, same⟩ := explained ancode student noted
    exact ⟨shortfall, grows shortfall member, same⟩
  have housed {place : Place} (known : place ∈ before.pool.places) (room : entry.room = place.room.name) :
      studentsOf (unplaced ancode) [entry] = [] :=
    studentsOf_other (by simp [unplaced, Seating.isPlaceholder, room, genuine.real place known])
  cases move.turn with
  | shared held room _ _ _ shortfalls =>
    rw [housed (held.known genuine.sound) room] at noted
    exact kept (by simp [shortfalls]) (noted.resolve_right List.not_mem_nil)
  | alone free _ room _ _ _ shortfalls =>
    rw [housed (genuine.sound.free_known _ free) room] at noted
    exact kept (by simp [shortfalls]) (noted.resolve_right List.not_mem_nil)
  | @short reason room _ _ reasons shortfalls =>
    rcases noted with noted | noted
    · exact kept (by simp +contextual [shortfalls]) noted
    · obtain ⟨other, single, chosen, seated⟩ := mem_studentsOf.mp noted
      obtain rfl := List.mem_singleton.mp single
      have same : other.ancode = ancode := by
        simp only [unplaced, Bool.and_eq_true, ofExam, decide_eq_true_eq] at chosen
        exact chosen.2
      refine ⟨⟨before.slot, exam.ancode, other.students.length, reason⟩, ?_, ?_, ?_⟩
      · rw [shortfalls]
        exact List.mem_append_right _ List.mem_cons_self
      · exact move.ancode.symm.trans same
      · exact (reasons student seated).symm

theorem Move.justified (move : Move records threshold exam before entry after)
    (distinct : (exams.map (·.ancode)).Nodup) (known : exam ∈ exams) (justified : Justified exams before) :
    Justified exams after := by
  have narrows := step_narrows move.step
  intro shortfall member other listed same
  have kept (member : shortfall ∈ before.shortfalls) : Denied shortfall.reason other after.pool :=
    narrows.denied (justified shortfall member other listed same)
  cases move.turn with
  | shared _ _ _ _ _ shortfalls => exact kept (shortfalls ▸ member)
  | alone _ _ _ _ _ _ shortfalls => exact kept (shortfalls ▸ member)
  | short _ _ denied _ shortfalls =>
    rw [shortfalls] at member
    rcases List.mem_append.mp member with member | member
    · exact kept member
    · obtain rfl := List.mem_singleton.mp member
      obtain rfl := Lookups.eq_of_key distinct listed known same
      exact narrows.denied denied

/-- As long as no normal students are turned away, only free rooms are taken, and those do not suit. -/
theorem Move.barred (move : Move records threshold exam before entry after) (genuine : Genuine before.pool)
    (granted : Granted records entry)
    (justified : Justified exams before) (barred : Barred records exams before) : Barred records exams after := by
  intro shortfall member reason other listed same place known student noted needed
  rw [move.step.places_eq] at known
  have old : shortfall ∈ before.shortfalls := by
    cases move.turn with
    | shared _ _ _ _ _ shortfalls => exact shortfalls ▸ member
    | alone _ _ _ _ _ _ shortfalls => exact shortfalls ▸ member
    | short _ _ _ reasons shortfalls =>
      rw [shortfalls] at member
      apply (List.mem_append.mp member).resolve_right
      intro added
      obtain rfl := List.mem_singleton.mp added
      obtain ⟨student, seated⟩ := List.exists_mem_of_ne_nil _ move.filled
      exact granted student seated ((reasons student seated).trans reason)
  by_cases elsewhere : entry.room ≠ place.room.name
  · have noted := (seated_elsewhere move.step elsewhere).mem_iff.mp noted
    exact barred shortfall old reason other listed same place known student noted needed
  have here := not_not.mp elsewhere
  rcases List.mem_append.mp ((seated_here move.step move.plain here).mem_iff.mp noted) with noted | noted
  · exact barred shortfall old reason other listed same place known student noted needed
  cases move.turn with
  | shared _ _ _ _ company => exact absurd needed (company student noted)
  | alone free roomy room =>
    obtain rfl := Lookups.eq_of_key genuine.named (genuine.sound.free_known _ free) known (room.symm.trans here)
    have denied := justified shortfall old other listed same
    rw [reason] at denied
    exact unsatisfied (denied _ free) roomy
  | short room => exact absurd (here.symm.trans room) (genuine.real place known)

structure Accounted (records : List Accommodation) (exams : List Exam) (round : Round) : Prop where
  genuine : Genuine round.pool
  lodges : ∀ place ∈ round.pool.places, Lodges records round place
  explained : Explained records round
  justified : Justified exams round

theorem Move.accounted (move : Move records threshold exam before entry after) (known : exam ∈ exams)
    (distinct : (exams.map (·.ancode)).Nodup) (accounted : Accounted records exams before) :
    Accounted records exams after where
  genuine := accounted.genuine.step move.step
  lodges place listed := by
    rw [move.step.places_eq] at listed
    exact Move.lodges move accounted.genuine listed (accounted.lodges place listed)
  explained := Move.explained move accounted.genuine accounted.explained
  justified := Move.justified move distinct known accounted.justified

theorem moves_accounted (moves : Moves records threshold exams before entries after)
    (distinct : (exams.map (·.ancode)).Nodup) (accounted : Accounted records exams before) :
    Accounted records exams after := by
  induction moves with
  | done => exact accounted
  | next known move _ ih => exact ih (Move.accounted move known distinct accounted)

theorem moves_barred (moves : Moves records threshold exams before entries after)
    (distinct : (exams.map (·.ancode)).Nodup) (granted : ∀ entry ∈ entries, Granted records entry)
    (accounted : Accounted records exams before) (barred : Barred records exams before) :
    Barred records exams after := by
  induction moves with
  | done => exact barred
  | next known move _ ih =>
    rw [List.forall_mem_cons] at granted
    have next := Move.barred move accounted.genuine granted.1 accounted.justified barred
    exact ih granted.2 (Move.accounted move known distinct accounted) next

/-- Before the first accommodated student is seated nobody sits alone. -/
theorem normals_barred (run : Run threshold before entries after) (empty : before.seatings = [])
    (normals : ∀ entry ∈ entries, ∀ student ∈ entry.students, reasonFor records student = .noCompatibleRoom) :
    Barred records exams after := by
  intro shortfall member reason exam listed same place known student noted needed
  have all : (studentsOf (seatedIn place.room.name) after.seatings).Perm _ := run.students fun _ => rfl
  rw [all.mem_iff, empty, studentsOf_nil, List.nil_append] at noted
  obtain ⟨entry, logged, -, seated⟩ := mem_studentsOf.mp noted
  rw [normals entry logged student seated] at needed
  cases needed

end Timetable.Proofs.RoomsAlone
