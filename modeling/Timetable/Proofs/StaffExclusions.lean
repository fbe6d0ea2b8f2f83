import Timetable.Proofs.ExactDuties
import Timetable.Proofs.StaffingRuns

/-! Nobody is given a duty they must not have. In one slot a person, a room and the reserve are each
given once; whoever is given a duty is listed and free, and examiners only watch own exams that sit
in a single room. -/

namespace Timetable.Proofs.StaffExclusions
open Staffing Returned Lookups RoomDuties ExactDuties StaffingRuns

variable {invigilators : List Invigilator} {config : Config} {seatings : List Seating}
  {scheduled : Agenda Exam} {calendar : Calendar} {report : StaffingReport} {setting : Setting}
  {before after : Progress} {duty : Duty} {place : Nat} {member : Member} {slot : Slot}
  {invigilation : Invigilation} {overrides : Table InvigilatorOverride}

/-- The settings of a person; without an entry nothing is excluded. -/
def overrideOf (overrides : Table InvigilatorOverride) (id : StaffId) : InvigilatorOverride :=
  (overrides.find? id).getD {}

private theorem members_eq (invigilators : List Invigilator) (overrides : Table InvigilatorOverride) :
    members invigilators overrides = stableSort (fun a b => a.id ≤ b.id)
      (invigilators.filterMap fun invigilator =>
        if (overrideOf overrides invigilator.id).excluded then none
        else some ⟨invigilator,
          invigilator.excludedDays ++ (overrideOf overrides invigilator.id).excludedDays,
          invigilator.excludedSlots ++ (overrideOf overrides invigilator.id).excludedSlots⟩) := rfl

theorem mem_members : member ∈ members invigilators overrides ↔ ∃ invigilator ∈ invigilators,
    (overrideOf overrides invigilator.id).excluded = false ∧ member = ⟨invigilator,
      invigilator.excludedDays ++ (overrideOf overrides invigilator.id).excludedDays,
      invigilator.excludedSlots ++ (overrideOf overrides invigilator.id).excludedSlots⟩ := by
  rw [members_eq, Ordering.mem_stableSort, List.mem_filterMap]
  simp only [Option.ite_none_left_eq_some, Bool.not_eq_true, Option.some.injEq, eq_comm (b := member)]

theorem members_ids (distinct : (invigilators.map (·.id)).Nodup)
    (overrides : Table InvigilatorOverride) : ((members invigilators overrides).map (·.id)).Nodup := by
  rw [members_eq, ((Ordering.stableSort_perm _).map _).nodup_iff]
  rw [List.Nodup, List.pairwise_map] at distinct ⊢
  apply List.Pairwise.filterMap _ _ distinct
  intro first second different one here two there same
  simp only [Option.ite_none_left_eq_some, Option.some.injEq] at here there
  rw [← here.2, ← there.2] at same
  exact different same

theorem isAvailable_iff {date : Option Date} : member.isAvailable slot date = true ↔
    slot ∉ member.excludedSlots ∧ ∀ day, date = some day → day ∉ member.excludedDays := by
  cases date <;> simp [Member.isAvailable]

theorem examinerOf?_some {ancode : Ancode} {id : StaffId}
    (found : examinerOf? scheduled ancode = some id) :
    ∃ exam ∈ scheduled.values, exam.ancode = ancode ∧ exam.examiner = id := by
  obtain ⟨exam, last, same⟩ := Option.map_eq_some_iff.mp found
  obtain ⟨member, chosen⟩ := List.mem_filter.mp (List.mem_of_getLast? last)
  exact ⟨exam, member, of_decide_eq_true chosen, same⟩

private theorem under_eq {exams : List Exam} (slots : (scheduled.map (·.1)).Nodup)
    (listed : (slot, exams) ∈ scheduled) : scheduled.under slot = exams := by
  rw [Agenda.under, lookup_key slots listed, Option.getD_some]

theorem under_listed {exam : Exam} (present : exam ∈ scheduled.under slot) :
    ∃ exams, (slot, exams) ∈ scheduled ∧ exam ∈ exams := by
  unfold Agenda.under at present
  cases found : scheduled.lookup slot with
  | none =>
    rw [found] at present
    cases present
  | some exams =>
    rw [found] at present
    obtain ⟨front, back, rfl, -⟩ := List.lookup_eq_some_iff.mp found
    exact ⟨exams, List.mem_append_right _ List.mem_cons_self, present⟩

/-- What two duties of one report have to do with each other. -/
def Apart (first second : Invigilation) : Prop :=
  first.slot = second.slot → first.invigilator ≠ second.invigilator ∧ first.room ≠ second.room

structure Fair (setting : Setting) (invigilation : Invigilation) : Prop where
  available : ∃ member ∈ setting.members, member.id = invigilation.invigilator ∧
    member.isAvailable invigilation.slot (setting.calendar.dateOf? invigilation.slot) = true
  elsewhere : invigilation.ownExam = false →
    ∀ exam ∈ setting.scheduled.under invigilation.slot, exam.examiner ≠ invigilation.invigilator
  own : invigilation.ownExam = true → ∃ room, invigilation.room = some room ∧ ∃ ancode,
    examinerOf? setting.scheduled ancode = some invigilation.invigilator ∧
      ∀ other, Sits setting.seatings invigilation.slot ancode other ↔ other = room

/-- An exam that occupies one room in a slot, and sits in this room, sits in no other. -/
theorem sits_only {ancode : Ancode} {room : RoomName} (sits : Sits seatings slot ancode room)
    (single : (roomsOf seatings slot ancode).length = 1) (other : RoomName) :
    Sits seatings slot ancode other ↔ other = room := by
  obtain ⟨name, only⟩ := List.length_eq_one_iff.mp single
  rw [← mem_roomsOf, only, List.mem_singleton] at sits ⊢
  rw [sits]

private theorem suits_fair (suits : Suits setting place duty invigilation)
    (sits : ∀ room, duty.room = some room → ∀ ancode ∈ duty.exams,
      Sits setting.seatings duty.slot ancode room) : Fair setting invigilation := by
  obtain ⟨slot, room, available, elsewhere, own⟩ := suits
  rw [← slot] at available elsewhere own sits
  constructor
  case available =>
    obtain ⟨member, listed, same, free⟩ := available
    exact ⟨member, List.mem_of_getElem? listed, same, free⟩
  case elsewhere => exact elsewhere
  case own =>
    intro watched
    obtain ⟨name, here, ancode, exam, single, examiner⟩ := own watched
    exact ⟨name, room.trans here, ancode, examiner, sits_only (sits name here ancode exam) single⟩

private theorem giveSlot_given {duties : List Duty} (ids : (setting.members.map (·.id)).Nodup)
    (shift : Shift setting.seatings slot duties) (returned : giveSlot setting before duties = .ok after) :
    ∃ given, after.invigilations = before.invigilations ++ given ∧ given.Pairwise Apart ∧
      ∀ invigilation ∈ given, invigilation.slot = slot ∧ Fair setting invigilation := by
  obtain ⟨order, same, run⟩ := giveSlot_run returned
  obtain ⟨given, listed, rooms, persons, all⟩ := run.given ids
  have ordered := shift.perm same
  refine ⟨given, listed, ?_, ?_⟩
  · have once : (given.map (·.room)).Nodup := ordered.rooms.sublist rooms
    rw [List.Nodup, List.pairwise_map] at once
    apply (persons.and once).imp
    intro first second apart _
    exact apart
  · intro invigilation member
    obtain ⟨place, -, duty, present, suits⟩ := all invigilation member
    have here := ordered.slot_eq duty present
    refine ⟨suits.slot.trans here, suits_fair suits ?_⟩
    rw [here]
    exact ordered.sits duty present

theorem giveSlots_given {agenda : Agenda Duty} (ids : (setting.members.map (·.id)).Nodup)
    (slots : (agenda.map (·.1)).Nodup)
    (shifts : ∀ slot duties, (slot, duties) ∈ agenda → Shift setting.seatings slot duties)
    (returned : agenda.foldlM (fun progress item => giveSlot setting progress item.2) before = .ok after) :
    ∃ given, after.invigilations = before.invigilations ++ given ∧ given.Pairwise Apart ∧
      ∀ invigilation ∈ given, invigilation.slot ∈ agenda.map (·.1) ∧ Fair setting invigilation := by
  induction agenda generalizing before with
  | nil =>
    cases pure_ok returned
    exact ⟨[], by simp⟩
  | cons item rest ih =>
    rw [List.foldlM_cons] at returned
    obtain ⟨middle, first, returned⟩ := bind_ok returned
    rw [List.map_cons, List.nodup_cons] at slots
    obtain ⟨given, listed, apart, fair⟩ :=
      giveSlot_given ids (shifts _ _ List.mem_cons_self) first
    obtain ⟨later, added, others, all⟩ :=
      ih slots.2 (fun _ _ member => shifts _ _ (List.mem_cons_of_mem _ member)) returned
    refine ⟨given ++ later, ?_, List.pairwise_append.mpr ⟨apart, others, ?_⟩, ?_⟩
    · rw [added, listed, List.append_assoc]
    · intro one here two there same
      rw [(fair one here).1] at same
      exact absurd (same ▸ (all two there).1) slots.1
    · intro invigilation member
      rw [List.map_cons, List.mem_cons]
      cases List.mem_append.mp member with
      | inl here => exact ⟨.inl (fair invigilation here).1, (fair invigilation here).2⟩
      | inr there => exact ⟨.inr (all invigilation there).1, (all invigilation there).2⟩

structure Serves (config : Config) (calendar : Calendar) (invigilator : Invigilator) (slot : Slot) :
    Prop where
  included : (overrideOf config.invigilatorOverrides invigilator.id).excluded = false
  slots : slot ∉ invigilator.excludedSlots ∧
    slot ∉ (overrideOf config.invigilatorOverrides invigilator.id).excludedSlots
  days : ∀ day, calendar.dateOf? slot = some day → day ∉ invigilator.excludedDays ∧
    day ∉ (overrideOf config.invigilatorOverrides invigilator.id).excludedDays

theorem serves_unrestricted {invigilator : Invigilator}
    (settings : overrideOf config.invigilatorOverrides invigilator.id = {}) (slots : invigilator.excludedSlots = [])
    (days : invigilator.excludedDays = []) : Serves config calendar invigilator slot := by
  constructor
  case included => rw [settings]
  case slots => simp [settings, slots]
  case days => simp [settings, days]

private theorem exists_serving (listed : member ∈ members invigilators config.invigilatorOverrides)
    (available : member.isAvailable slot (calendar.dateOf? slot) = true) :
    ∃ invigilator ∈ invigilators, invigilator.id = member.id ∧ Serves config calendar invigilator slot := by
  obtain ⟨invigilator, known, included, rfl⟩ := mem_members.mp listed
  obtain ⟨slots, days⟩ := isAvailable_iff.mp available
  rw [List.mem_append, not_or] at slots
  refine ⟨invigilator, known, rfl, included, slots, ?_⟩
  intro day here
  have free := days day here
  rw [List.mem_append, not_or] at free
  exact free

theorem exists_available {invigilator : Invigilator} (known : invigilator ∈ invigilators)
    (serves : Serves config calendar invigilator slot) :
    ∃ member ∈ members invigilators config.invigilatorOverrides, member.id = invigilator.id ∧
      member.isAvailable slot (calendar.dateOf? slot) = true := by
  refine ⟨_, mem_members.mpr ⟨invigilator, known, serves.included, rfl⟩, rfl, isAvailable_iff.mpr ⟨?_, ?_⟩⟩
  · rw [List.mem_append, not_or]
    exact serves.slots
  · intro day here
    rw [List.mem_append, not_or]
    exact serves.days day here

/-- In a slot nobody has two duties, and no room and no reserve is given twice. Whoever has a duty
serves in its slot; unless they watch an own exam, in the only room it sits in, they examine none of
the exams of the slot. -/
theorem duties_respect_exclusions (ids : (invigilators.map (·.id)).Nodup)
    (slots : (scheduled.map (·.1)).Nodup)
    (balanced : Staffing.balance invigilators config seatings scheduled calendar = .ok report) :
    report.invigilations.Pairwise (fun first second => first.slot = second.slot →
      first.invigilator ≠ second.invigilator ∧ first.room ≠ second.room) ∧
    ∀ invigilation ∈ report.invigilations,
      (∃ invigilator ∈ invigilators, invigilator.id = invigilation.invigilator ∧
        Serves config calendar invigilator invigilation.slot) ∧
      (invigilation.ownExam = false → ∀ exams, (invigilation.slot, exams) ∈ scheduled →
        ∀ exam ∈ exams, exam.examiner ≠ invigilation.invigilator) ∧
      (invigilation.ownExam = true → ∃ room, invigilation.room = some room ∧
        ∃ exam ∈ scheduled.values, exam.examiner = invigilation.invigilator ∧
          ∀ other, Sits seatings invigilation.slot exam.ancode other ↔ other = room) := by
  obtain ⟨required, -, balanced⟩ := bind_ok balanced
  obtain ⟨progress, given, balanced⟩ := bind_ok balanced
  obtain rfl := pure_ok balanced
  obtain ⟨given, listed, apart, fair⟩ := giveSlots_given (members_ids ids _) (duties_slots seatings _)
    (fun _ _ => duties_shift) given
  rw [List.nil_append] at listed
  rw [listed]
  refine ⟨apart, ?_⟩
  intro invigilation member
  obtain ⟨-, available, elsewhere, own⟩ := fair invigilation member
  refine ⟨?_, ?_, ?_⟩
  · obtain ⟨member, known, same, free⟩ := available
    rw [← same]
    exact exists_serving known free
  · intro other exams present
    rw [← under_eq slots present]
    exact elsewhere other
  · intro watched
    obtain ⟨room, here, ancode, examiner, only⟩ := own watched
    obtain ⟨exam, present, rfl, same⟩ := examinerOf?_some examiner
    exact ⟨room, here, exam, present, same, only⟩

def morning : Agenda Exam :=
  [(⟨1, 1⟩, [
    { ancode := 1, title := "", examiner := "ada", duration := 90, category := .regular,
      registrations := [⟨"IF", ["a"]⟩], constraints := {} },
    { ancode := 2, title := "", examiner := "bob", duration := 60, category := .regular,
      registrations := [⟨"IF", ["b", "c"]⟩], constraints := {} }])]

def morningRooms : List Seating :=
  [⟨⟨1, 1⟩, "R1", 1, 90, ["a"], false, false⟩, ⟨⟨1, 1⟩, "R2", 2, 60, ["b"], false, false⟩,
    ⟨⟨1, 1⟩, "R3", 2, 60, ["c"], false, false⟩]

def morningStaff : List Invigilator :=
  ["ada", "bob", "cem", "dan", "eve"].map fun id => ⟨id, 1, 0, [], []⟩

def absences : Config where
  invigilatorOverrides := [("cem", { excludedDays := [⟨2025, 7, 1⟩] })]

def july : Calendar := ⟨⟨[⟨⟨1, 1⟩, ⟨⟨2025, 7, 1⟩, ⟨8, 30, 0, 0⟩⟩⟩], []⟩, false⟩

theorem third_room_stays_open :
    ∃ report, Staffing.balance morningStaff absences morningRooms morning july = .ok report ∧
      report.invigilations = [⟨⟨1, 1⟩, some "R1", "ada", 90, true⟩, ⟨⟨1, 1⟩, none, "dan", 90, false⟩,
        ⟨⟨1, 1⟩, some "R2", "eve", 60, false⟩] ∧
      report.unassigned = [(⟨1, 1⟩, some "R3")] ∧
      report.invigilations.Pairwise (fun first second => first.slot = second.slot →
        first.invigilator ≠ second.invigilator ∧ first.room ≠ second.room) ∧
      ∀ invigilation ∈ report.invigilations, ∃ invigilator ∈ morningStaff,
        invigilator.id = invigilation.invigilator ∧ Serves absences july invigilator invigilation.slot := by
  have given : (Staffing.balance morningStaff absences morningRooms morning july).toOption.map
      (fun report => (report.invigilations, report.unassigned)) = some
      ([⟨⟨1, 1⟩, some "R1", "ada", 90, true⟩, ⟨⟨1, 1⟩, none, "dan", 90, false⟩,
        ⟨⟨1, 1⟩, some "R2", "eve", 60, false⟩], [(⟨1, 1⟩, some "R3")]) := by decide +kernel
  cases balanced : Staffing.balance morningStaff absences morningRooms morning july with
  | error =>
    rw [balanced] at given
    cases given
  | ok report =>
    rw [balanced] at given
    obtain ⟨apart, all⟩ := duties_respect_exclusions (by decide) (by decide) balanced
    have same := Option.some.inj given
    exact ⟨report, rfl, congrArg Prod.fst same, congrArg Prod.snd same, apart,
      fun invigilation member => (all invigilation member).1⟩

end Timetable.Proofs.StaffExclusions
