import Timetable.Document.Record
import Timetable.Calendar.Basic
import Timetable.Calendar.DateText

/-!
Documents of slots, exam periods, exams and accommodations.
-/

namespace Timetable

def Slot.ofJson? (value : Json) : Option Slot := do
  let record ← Record.read? ["day", "slot"] value
  return ⟨← record.required? "day" Json.number?, ← record.required? "slot" Json.number?⟩

def Slot.toJson (slot : Slot) : Json :=
  .record [("day", .ofNat slot.day), ("slot", .ofNat slot.number)]

def Date.ofJson? (value : Json) : Option Date := value.text? >>= Date.parse?

def Date.toJson (date : Date) : Json := .ofText date.text

def DateTime.ofJson? (value : Json) : Option DateTime := value.text? >>= DateTime.parse?

def DateTime.toJson (moment : DateTime) : Json := .ofText moment.text

def TimedSlot.ofJson? (value : Json) : Option TimedSlot := do
  let record ← Record.read? ["day", "slot", "startsAt"] value
  return {
    slot := ⟨← record.required? "day" Json.number?, ← record.required? "slot" Json.number?⟩
    startsAt := ← record.required? "startsAt" DateTime.ofJson?
  }

def TimedSlot.toJson (timed : TimedSlot) : Json :=
  .record [
    ("day", .ofNat timed.slot.day),
    ("slot", .ofNat timed.slot.number),
    ("startsAt", timed.startsAt.toJson)]

def ExamPeriod.ofJson? (value : Json) : Option ExamPeriod := do
  let record ← Record.read? ["slots", "goSlots"] value
  return {
    slots := ← record.required? "slots" (Json.list? TimedSlot.ofJson?)
    goSlots := ← record.list? "goSlots" Slot.ofJson?
  }

def ExamPeriod.toJson (period : ExamPeriod) : Json :=
  .record [
    ("slots", .ofList TimedSlot.toJson period.slots),
    ("goSlots", .ofList Slot.toJson period.goSlots)]

def ExamCategory.ofJson? : Json → Option ExamCategory :=
  Json.word? [("regular", .regular), ("go", .go)]

def ExamCategory.toJson : ExamCategory → Json
  | .regular => .ofText "regular"
  | .go => .ofText "go"

def Registration.ofJson? (value : Json) : Option Registration := do
  let record ← Record.read? ["program", "students"] value
  return {
    program := ← record.required? "program" Json.text?
    students := ← record.list? "students" Json.text?
  }

def Registration.toJson (registration : Registration) : Json :=
  .record [
    ("program", .ofText registration.program),
    ("students", .ofList .ofText registration.students)]

def RoomRequirements.ofJson? (value : Json) : Option RoomRequirements := do
  let record ← Record.read? ["lab", "restrictedSoftware", "sockets", "online"] value
  return {
    lab := ← record.flag? "lab"
    restrictedSoftware := ← record.flag? "restrictedSoftware"
    sockets := ← record.flag? "sockets"
    online := ← record.flag? "online"
  }

def RoomRequirements.toJson (requirements : RoomRequirements) : Json :=
  .record [
    ("lab", .bool requirements.lab),
    ("restrictedSoftware", .bool requirements.restrictedSoftware),
    ("sockets", .bool requirements.sockets),
    ("online", .bool requirements.online)]

def ExamConstraints.ofJson? (value : Json) : Option ExamConstraints := do
  let record ← Record.read? ["notPlannedByMe", "excludeDays", "possibleDays", "fixedDay",
    "fixedTime", "sameSlot", "rooms"] value
  return {
    plannedElsewhere := ← record.flag? "notPlannedByMe"
    excludedDays := ← record.list? "excludeDays" Date.ofJson?
    possibleDays := ← record.list? "possibleDays" Date.ofJson?
    fixedDay := ← record.withDefault? "fixedDay" (Json.nullable? Date.ofJson?) none
    fixedTime := ← record.withDefault? "fixedTime" (Json.nullable? DateTime.ofJson?) none
    sameSlot := ← record.list? "sameSlot" Json.number?
    rooms := ← record.withDefault? "rooms" RoomRequirements.ofJson? {}
  }

def ExamConstraints.toJson (constraints : ExamConstraints) : Json :=
  .record [
    ("notPlannedByMe", .bool constraints.plannedElsewhere),
    ("excludeDays", .ofList Date.toJson constraints.excludedDays),
    ("possibleDays", .ofList Date.toJson constraints.possibleDays),
    ("fixedDay", .ofOption Date.toJson constraints.fixedDay),
    ("fixedTime", .ofOption DateTime.toJson constraints.fixedTime),
    ("sameSlot", .ofList .ofNat constraints.sameSlot),
    ("rooms", constraints.rooms.toJson)]

def Exam.ofJson? (value : Json) : Option Exam := do
  let record ← Record.read? ["ancode", "module", "mainExaminer", "duration", "category",
    "registrations", "constraints"] value
  return {
    ancode := ← record.required? "ancode" Json.number?
    title := ← record.withDefault? "module" Json.text? ""
    examiner := ← record.required? "mainExaminer" Json.text?
    duration := ← record.required? "duration" Json.number?
    category := ← record.withDefault? "category" ExamCategory.ofJson? .regular
    registrations := ← record.list? "registrations" Registration.ofJson?
    constraints := ← record.withDefault? "constraints" ExamConstraints.ofJson? {}
  }

def Exam.toJson (exam : Exam) : Json :=
  .record [
    ("ancode", .ofNat exam.ancode),
    ("module", .ofText exam.title),
    ("mainExaminer", .ofText exam.examiner),
    ("duration", .ofNat exam.duration),
    ("category", exam.category.toJson),
    ("registrations", .ofList Registration.toJson exam.registrations),
    ("constraints", exam.constraints.toJson)]

def Accommodation.ofJson? (value : Json) : Option Accommodation := do
  let record ← Record.read? ["student", "deltaDurationPercent", "needsRoomAlone"] value
  return {
    student := ← record.required? "student" Json.text?
    extraPercent := ← record.withDefault? "deltaDurationPercent" Json.number? 0
    needsRoomAlone := ← record.flag? "needsRoomAlone"
  }

def Accommodation.toJson (accommodation : Accommodation) : Json :=
  .record [
    ("student", .ofText accommodation.student),
    ("deltaDurationPercent", .ofNat accommodation.extraPercent),
    ("needsRoomAlone", .bool accommodation.needsRoomAlone)]

end Timetable
