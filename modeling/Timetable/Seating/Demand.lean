import Timetable.Exam
import Timetable.Fault

/-!
The registrants of one exam by the way they have to be seated, and how long each of them sits.
-/

namespace Timetable

/-- A duration with additional time, rounded up to minutes and cut off at the greatest number of a
document. The product has to fit 64 bits. -/
def scaledDuration (base extraPercent : Nat) : Except Fault Nat :=
  let product := base * (100 + extraPercent)
  if product < UInt64.size then .ok (min ((product + 99) / 100) (numberLimit - 1)) else .error .overflow

/-- What a student is granted, with the additional time in percent. -/
inductive Grant where
  | nothing
  | extraTime (percent : Nat)
  | roomAlone (percent : Nat)
deriving DecidableEq, Repr

/-- The last record of a student counts; a record may also grant nothing. -/
def Grant.of (records : List Accommodation) (student : StudentId) : Grant :=
  match Accommodation.of? records student with
  | none => .nothing
  | some record =>
    if record.needsRoomAlone then .roomAlone record.extraPercent
    else if 0 < record.extraPercent then .extraTime record.extraPercent
    else .nothing

/-- A student and the minutes they sit. -/
structure TimedStudent where
  student : StudentId
  duration : Nat
deriving DecidableEq, Repr

/-- The students of an exam that are still to be seated. -/
structure Demand where
  exam : Exam
  normal : List StudentId
  /-- Students with additional time who sit among others. -/
  extended : List TimedStudent
  /-- Students who need a room of their own. -/
  alone : List TimedStudent
  /-- The number of normal students at the beginning. -/
  normalTotal : Nat
deriving DecidableEq, Repr

namespace Demand

/-- The students whose grant has some form, with their durations. -/
def timed (exam : Exam) (percentOf? : StudentId → Option Nat) : Except Fault (List TimedStudent) :=
  (exam.registrants.filterMap fun student => (percentOf? student).map (student, ·)).mapM
    fun (student, percent) => do return ⟨student, ← scaledDuration exam.duration percent⟩

def ofExam (records : List Accommodation) (exam : Exam) : Except Fault Demand := do
  let normal := exam.registrants.filter fun student => Grant.of records student = .nothing
  let extended ← timed exam fun student => match Grant.of records student with
    | .extraTime percent => some percent
    | _ => none
  let alone ← timed exam fun student => match Grant.of records student with
    | .roomAlone percent => some percent
    | _ => none
  return ⟨exam, normal, extended, alone, normal.length⟩

def accommodatedCount (demand : Demand) : Nat := demand.extended.length + demand.alone.length

/-- The first `n` normal students. -/
def firstNormal (demand : Demand) (n : Nat) : List StudentId := demand.normal.take n

/-- What is left without the first `n` normal students. -/
def dropNormal (demand : Demand) (n : Nat) : Demand := { demand with normal := demand.normal.drop n }

/-- What is left without students who are seated already. -/
def without (demand : Demand) (seated : List StudentId) : Demand :=
  { demand with
    normal := demand.normal.filter fun student => !seated.contains student
    extended := demand.extended.filter fun entry => !seated.contains entry.student
    alone := demand.alone.filter fun entry => !seated.contains entry.student }

/-- Whether a demand is at most as urgent as another: fewer normal students, then fewer accommodated
ones, then the greater ancode. -/
def isAtMost (a b : Demand) : Bool :=
  a.normal.length < b.normal.length
    || (a.normal.length = b.normal.length
      && (a.accommodatedCount < b.accommodatedCount
        || (a.accommodatedCount = b.accommodatedCount && b.exam.ancode ≤ a.exam.ancode)))

end Demand

end Timetable
