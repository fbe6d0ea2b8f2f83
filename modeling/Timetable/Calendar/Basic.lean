import Timetable.Slot
import Timetable.Exam

/-!
The slots of an exam period in order, and the slots that an exam may take.
-/

namespace Timetable

/-- A slot and the moment it starts. -/
structure TimedSlot where
  slot : Slot
  startsAt : DateTime
deriving DecidableEq, Repr

def TimedSlot.date (timed : TimedSlot) : Date := timed.startsAt.date

/-- The slots of one exam period, and those of them set aside for GO exams. -/
structure ExamPeriod where
  slots : List TimedSlot
  goSlots : List Slot
deriving DecidableEq, Repr

/-- A period together with the rule whether regular exams stay out of GO slots. -/
structure Calendar where
  period : ExamPeriod
  goExclusive : Bool
deriving DecidableEq, Repr

namespace Calendar

/-- The slots in chronological order; slots that are listed twice keep their order. -/
def slots (calendar : Calendar) : List TimedSlot :=
  stableSort (fun a b => a.slot.isAtMost b.slot) calendar.period.slots

/-- The start of a slot; of several the last listed counts. -/
def find? (calendar : Calendar) (slot : Slot) : Option TimedSlot :=
  (calendar.period.slots.filter (·.slot = slot)).getLast?

def dateOf? (calendar : Calendar) (slot : Slot) : Option Date :=
  (calendar.find? slot).map TimedSlot.date

def isGo (calendar : Calendar) (slot : Slot) : Bool := calendar.period.goSlots.contains slot

/-- GO exams take GO slots, and where these are exclusive nobody else does. -/
def admitsCategory (calendar : Calendar) (category : ExamCategory) (slot : Slot) : Bool :=
  match category with
  | .go => calendar.isGo slot
  | .regular => !(calendar.goExclusive && calendar.isGo slot)

/-- Whether an exam may take a slot by its category and its constraints on days and times. -/
def admits (calendar : Calendar) (exam : Exam) (timed : TimedSlot) : Bool :=
  let constraints := exam.constraints
  calendar.admitsCategory exam.category timed.slot
    && !constraints.excludedDays.contains timed.date
    && (constraints.possibleDays.isEmpty || constraints.possibleDays.contains timed.date)
    && (match constraints.fixedDay with
        | none => true
        | some day => timed.date = day)
    && (match constraints.fixedTime with
        | none => true
        | some moment => timed.startsAt = moment)

/-- The slots that an exam may take, in the order of the calendar. -/
def allowedSlots (calendar : Calendar) (exam : Exam) : List Slot :=
  (calendar.slots.filter (calendar.admits exam)).map (·.slot)

end Calendar

end Timetable
