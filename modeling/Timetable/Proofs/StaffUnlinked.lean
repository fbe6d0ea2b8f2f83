import Timetable.Proofs.ScheduledExams
import Timetable.Proofs.SeatingUnlinked
import Timetable.Staffing.Balance

/-! The agenda of a plan and its staff for exams without their links. Staff look at the examiners of a
slot and at the date of it, so two agendas that agree there are staffed in the same way. -/

namespace Timetable.Proofs.StaffUnlinked
open LinkedExams ScheduledExams SeatingUnlinked Staffing

section
variable {plan : Plan} {groups : List ExamGroup} {exams : List Exam} {group : ExamGroup}

private theorem examOf?_unlinked (exams : List Exam) :
    examOf? (exams.map unlinked) = fun ancode => (examOf? exams ancode).map unlinked := by
  funext ancode
  rw [examOf?, examOf?, List.filter_map, List.getLast?_map]
  rfl

private theorem entriesOf_unlinked (plan : Plan) (exams : List Exam) (group : ExamGroup) :
    entriesOf plan (exams.map unlinked) group
      = (entriesOf plan exams group).map fun entry => (entry.1, unlinked entry.2) := by
  unfold entriesOf
  split
  · rfl
  · rw [examOf?_unlinked, ← List.map_filterMap, List.map_map, List.map_map]
    rfl

private theorem ofEntries_map {α β : Type} (f : α → β) (entries : List (Slot × α)) :
    Agenda.ofEntries (entries.map fun entry => (entry.1, f entry.2))
      = (Agenda.ofEntries entries).map fun item => (item.1, item.2.map f) := by
  simp only [Agenda.ofEntries, List.map_map, List.filter_map, Function.comp_def]

theorem scheduledExams_unlinked (plan : Plan) (groups : List ExamGroup) (exams : List Exam) :
    scheduledExams plan groups (exams.map unlinked) = bareAgenda (scheduledExams plan groups exams) := by
  rw [scheduledExams_eq, scheduledExams_eq, funext (entriesOf_unlinked plan exams), ← List.map_flatMap,
    ofEntries_map, bareAgenda, List.map_map, List.map_map]
  refine List.map_congr_left fun item _ => ?_
  exact congrArg (item.1, ·) (Ordering.stableSort_map (f := unlinked) (fun _ _ => rfl) item.2)

theorem examsNeedingRooms_unlinked (plan : Plan) (groups : List ExamGroup) (exams : List Exam) :
    examsNeedingRooms plan groups (exams.map unlinked) = bareAgenda (examsNeedingRooms plan groups exams) := by
  unfold examsNeedingRooms
  rw [scheduledExams_unlinked]
  simp only [bareAgenda, List.map_map, List.filter_map, Function.comp_def, List.isEmpty_map]
  rfl

end

section
variable {members : List Member} {required : List Nat} {seatings : List Seating} {scheduled again : Agenda Exam}
  {calendar other : Calendar} {slot : Slot} {invigilators : List Invigilator} {config : Config}

private theorem examinerOf?_bare (scheduled : Agenda Exam) :
    examinerOf? (bareAgenda scheduled) = examinerOf? scheduled := by
  have values : (bareAgenda scheduled).values = scheduled.values.map unlinked := by
    rw [Agenda.values, Agenda.values, bareAgenda, List.flatMap_map, List.map_flatMap]
  funext ancode
  rw [examinerOf?, examinerOf?, values, List.filter_map, List.getLast?_map, Option.map_map]
  rfl

private theorem under_bare (scheduled : Agenda Exam) (slot : Slot) :
    (bareAgenda scheduled).under slot = (scheduled.under slot).map unlinked := by
  induction scheduled with
  | nil => rfl
  | cons item rest ih =>
    obtain ⟨first, exams⟩ := item
    simp only [Agenda.under, bareAgenda, List.map_cons, List.lookup_cons] at ih ⊢
    split
    · rfl
    · exact ih

structure Alike (scheduled again : Agenda Exam) (calendar other : Calendar) : Prop where
  examiners : examinerOf? again = examinerOf? scheduled
  busy : ∀ slot id, (again.under slot).any (·.examiner = id) = (scheduled.under slot).any (·.examiner = id)
  dates : other.dateOf? = calendar.dateOf?

namespace Alike
variable (alike : Alike scheduled again calendar other)
include alike

private theorem giveOwn_eq (duties : List Duty) (progress : Progress) :
    giveOwn ⟨members, required, seatings, again, other⟩ progress duties
      = giveOwn ⟨members, required, seatings, scheduled, calendar⟩ progress duties := by
  have examiner (busy : List Nat) (slot : Slot) :
      examinerFor? ⟨members, required, seatings, again, other⟩ busy slot
        = examinerFor? ⟨members, required, seatings, scheduled, calendar⟩ busy slot := by
    funext ancode
    simp only [examinerFor?, alike.examiners, alike.dates]
  have own (busy : List Nat) (duty : Duty) :
      ownInvigilator? ⟨members, required, seatings, again, other⟩ busy duty
        = ownInvigilator? ⟨members, required, seatings, scheduled, calendar⟩ busy duty := by
    simp only [ownInvigilator?, examiner]
  induction duties generalizing progress with
  | nil => rfl
  | cons duty rest ih =>
    rw [giveOwn, giveOwn, own]
    simp only [ih]

private theorem giveOpen_eq : giveOpen ⟨members, required, seatings, again, other⟩
    = giveOpen ⟨members, required, seatings, scheduled, calendar⟩ := by
  have eligible (busy : List Nat) (slot : Slot) (member : Member) (place : Nat) :
      isEligible ⟨members, required, seatings, again, other⟩ busy slot member place
        = isEligible ⟨members, required, seatings, scheduled, calendar⟩ busy slot member place := by
    simp only [isEligible, alike.busy, alike.dates]
  have behind : furthestBehind? ⟨members, required, seatings, again, other⟩
      = furthestBehind? ⟨members, required, seatings, scheduled, calendar⟩ := by
    funext progress slot
    simp only [furthestBehind?, eligible]
    rfl
  funext progress duty
  simp only [giveOpen, behind]

theorem balance_eq : balance invigilators config seatings again other
    = balance invigilators config seatings scheduled calendar := by
  have slots (required : List Nat) (members : List Member) :
      giveSlot ⟨members, required, seatings, again, other⟩
        = giveSlot ⟨members, required, seatings, scheduled, calendar⟩ := by
    funext progress duties
    simp only [giveSlot, alike.giveOwn_eq, alike.giveOpen_eq]
  simp only [balance, slots, balances]

end Alike

theorem alike_bare (dates : other.dateOf? = calendar.dateOf?) :
    Alike scheduled (bareAgenda scheduled) calendar other where
  examiners := examinerOf?_bare scheduled
  busy slot id := by
    rw [under_bare, List.any_map]
    rfl
  dates := dates

end

end Timetable.Proofs.StaffUnlinked
