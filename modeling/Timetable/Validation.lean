import Timetable.Config
import Timetable.Double.Text
import Timetable.Input

/-!
Problems of planning inputs and settings, in the order in which they are reported.
-/

namespace Timetable

inductive Problem where
  | noSlots
  | duplicateSlot (slot : Slot)
  | duplicateExam (ancode : Ancode)
  | duplicateRoom (name : RoomName)
  | duplicateInvigilator (id : StaffId)
  | slotNotCountedFromOne (slot : Slot)
  | goSlotUnknown (slot : Slot)
  | examWithoutDuration (ancode : Ancode)
  | linkToUnknownExam (ancode linked : Ancode)
  | roomWithoutSeats (name : RoomName)
  | invalidFactor (id : StaffId) (factor : Double)
  | committedToUnknownSlot (group : GroupCode) (slot : Slot)
  | pinnedToUnknownSlot (room : RoomName) (ancode : Ancode) (slot : Slot)
  | pinnedForUnknownExam (room : RoomName) (ancode : Ancode)
  | targetMutationNoProbability (value : Double)
  | pressureNotFinite (value : Double)
deriving DecidableEq, Repr

namespace Problem

def message : Problem → String
  | .noSlots => "calendar has no slots"
  | .duplicateSlot slot => s!"duplicate slot: {slot.text}"
  | .duplicateExam ancode => s!"duplicate ancode: {ancode}"
  | .duplicateRoom name => s!"duplicate room: {name}"
  | .duplicateInvigilator id => s!"duplicate invigilator: {id}"
  | .slotNotCountedFromOne slot => s!"slot {slot.text} is not 1-based"
  | .goSlotUnknown slot => s!"GO slot {slot.text} is not part of the calendar"
  | .examWithoutDuration ancode => s!"exam {ancode} has duration 0"
  | .linkToUnknownExam ancode linked =>
    s!"exam {ancode} has a same-slot link to unknown exam {linked}"
  | .roomWithoutSeats name => s!"room {name} has no seats"
  | .invalidFactor id factor =>
    let value := factor.messageText
    s!"invigilator {id} has invalid factor {value}"
  | .committedToUnknownSlot group slot =>
    s!"committed group {group} references unknown slot {slot.text}"
  | .pinnedToUnknownSlot room ancode slot =>
    s!"pinned room {room} for exam {ancode} references unknown slot {slot.text}"
  | .pinnedForUnknownExam room ancode => s!"pinned room {room} references unknown exam {ancode}"
  | .targetMutationNoProbability value =>
    let value := value.messageText
    s!"target mutation {value} is not a probability"
  | .pressureNotFinite value =>
    let value := value.messageText
    s!"rank selection pressure {value} is not finite"

end Problem

namespace Validation

/-- The elements of a list that occur before, once for each repetition. -/
def repetitions {α : Type} [BEq α] (seen : List α) : List α → List α
  | [] => []
  | x :: rest =>
    if seen.contains x then x :: repetitions seen rest else repetitions (x :: seen) rest

def calendarProblems (period : ExamPeriod) : List Problem :=
  if period.slots.isEmpty then [.noSlots] else []

def duplicateProblems (input : PlanningInput) : List Problem :=
  (repetitions [] (input.period.slots.map (·.slot))).map .duplicateSlot
    ++ (repetitions [] (input.exams.map (·.ancode))).map .duplicateExam
    ++ (repetitions [] (input.rooms.map (·.name))).map .duplicateRoom
    ++ (repetitions [] (input.invigilators.map (·.id))).map .duplicateInvigilator

def slotProblems (period : ExamPeriod) : List Problem :=
  let slots := period.slots.map (·.slot)
  (slots.filter fun slot => slot.day = 0 || slot.number = 0).map .slotNotCountedFromOne
    ++ (period.goSlots.filter fun slot => !slots.contains slot).map .goSlotUnknown

def examProblems (exams : List Exam) : List Problem :=
  let known := exams.map (·.ancode)
  exams.flatMap fun exam =>
    (if exam.duration = 0 then [.examWithoutDuration exam.ancode] else [])
      ++ (exam.constraints.sameSlot.filter fun linked => !known.contains linked).map
        (.linkToUnknownExam exam.ancode)

def roomProblems (rooms : List Room) : List Problem :=
  (rooms.filter (·.seats = 0)).map fun room => .roomWithoutSeats room.name

/-- Factors are finite and not negative. -/
def isValidFactor (factor : Double) : Bool := factor.isFinite && !(factor < 0)

def staffProblems (invigilators : List Invigilator) : List Problem :=
  (invigilators.filter fun invigilator => !isValidFactor invigilator.factor).map
    fun invigilator => .invalidFactor invigilator.id invigilator.factor

def committedProblems (slots : List Slot) (committed : List Placement) : List Problem :=
  (committed.filter fun placement => !slots.contains placement.slot).map
    fun placement => .committedToUnknownSlot placement.group placement.slot

def pinnedProblems (slots : List Slot) (ancodes : List Ancode) (pinned : List Seating) :
    List Problem :=
  pinned.flatMap fun pin =>
    (if slots.contains pin.slot then [] else [.pinnedToUnknownSlot pin.room pin.ancode pin.slot])
      ++ (if ancodes.contains pin.ancode then [] else [.pinnedForUnknownExam pin.room pin.ancode])

end Validation

/-- Everything that keeps an input from being planned. -/
def PlanningInput.problems (input : PlanningInput) : List Problem :=
  let slots := input.period.slots.map (·.slot)
  Validation.calendarProblems input.period
    ++ Validation.duplicateProblems input
    ++ Validation.slotProblems input.period
    ++ Validation.examProblems input.exams
    ++ Validation.roomProblems input.rooms
    ++ Validation.staffProblems input.invigilators
    ++ Validation.committedProblems slots input.committed
    ++ Validation.pinnedProblems slots (input.exams.map (·.ancode)) input.pinned

/-- Everything that keeps the search from working with its settings. -/
def Config.problems (config : Config) : List Problem :=
  let target := config.search.targetMutation
  (if 0 ≤ target ∧ target ≤ 1 then [] else [.targetMutationNoProbability target])
    ++ match config.search.selection with
      | .rank pressure => if pressure.isFinite then [] else [.pressureNotFinite pressure]
      | _ => []

end Timetable
