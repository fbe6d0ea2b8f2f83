import Timetable.Calendar.Date

/-!
Exams with their registrations and constraints, and the accommodations of single students.
-/

namespace Timetable

/-- The number of an exam. -/
abbrev Ancode := Nat

abbrev StudentId := String

abbrev StaffId := String

inductive ExamCategory where
  | regular
  /-- Exams of this category sit in the slots set aside for them and in no others. -/
  | go
deriving DecidableEq, Repr

/-- The students of one program that are registered for an exam. -/
structure Registration where
  program : String
  students : List StudentId
deriving DecidableEq, Repr

/-- What an exam requires of the rooms it is placed in; an online exam takes none. -/
structure RoomRequirements where
  lab : Bool := false
  restrictedSoftware : Bool := false
  sockets : Bool := false
  online : Bool := false
deriving DecidableEq, Repr

structure ExamConstraints where
  /-- The exam is planned by somebody else and only counts for conflicts. -/
  plannedElsewhere : Bool := false
  excludedDays : List Date := []
  /-- Without entries every day is possible. -/
  possibleDays : List Date := []
  fixedDay : Option Date := none
  fixedTime : Option DateTime := none
  /-- Exams that have to take the same slot. -/
  sameSlot : List Ancode := []
  rooms : RoomRequirements := {}
deriving DecidableEq, Repr

structure Exam where
  ancode : Ancode
  title : String
  examiner : StaffId
  /-- Minutes. -/
  duration : Nat
  category : ExamCategory
  registrations : List Registration
  constraints : ExamConstraints
deriving DecidableEq, Repr

namespace Exam

/-- All registered students across programs, in registration order and with repetitions. -/
def students (exam : Exam) : List StudentId := exam.registrations.flatMap (·.students)

/-- The registered students, each once, at the place of their first registration. -/
def registrants (exam : Exam) : List StudentId := exam.students.eraseDups

/-- Planned here and not online. -/
def needsRoom (exam : Exam) : Bool :=
  !exam.constraints.plannedElsewhere && !exam.constraints.rooms.online

end Exam

/-- What one student is granted in all exams. -/
structure Accommodation where
  student : StudentId
  /-- Additional time, in percent of an exam's duration. -/
  extraPercent : Nat
  needsRoomAlone : Bool
deriving DecidableEq, Repr

/-- The record that counts for a student: the last one. -/
def Accommodation.of? (records : List Accommodation) (student : StudentId) : Option Accommodation :=
  (records.filter (·.student = student)).getLast?

end Timetable
