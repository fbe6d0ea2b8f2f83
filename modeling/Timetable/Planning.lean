import Timetable.Grouping.Basic
import Timetable.Validation

/-!
Checks in front of a search, and the exams that a plan puts into each slot.
-/

namespace Timetable

/-- Why there is no outcome. -/
inductive PlanningError where
  | invalid (problems : List Problem)
  | unschedulable (groups : List UnschedulableGroup)
  | missingRooms
  | noValidPlan (clashes : List Clash)
  | fault (fault : Fault)
deriving DecidableEq, Repr

def PlanningError.message : PlanningError → String
  | .invalid problems =>
    let texts := "; ".intercalate (problems.map Problem.message)
    s!"invalid input: {texts}"
  | .unschedulable groups =>
    let texts := ", ".intercalate (groups.map UnschedulableGroup.text)
    s!"{groups.length} exam group(s) have no allowed slot: {texts}"
  | .missingRooms => "room inventory is empty"
  | .noValidPlan clashes => s!"no valid plan found: {clashes.length} hard conflict(s) remain"
  | .fault .overflow => "a number is out of range"
  | .fault .outOfRange => "a position is out of range"
  | .fault .noChance => "a chance is out of range"
  | .fault .drawsExhausted => "no random draw was accepted"

def validate (input : PlanningInput) : Except PlanningError Unit :=
  match input.problems with
  | [] => .ok ()
  | problems => .error (.invalid problems)

def validateConfig (config : Config) : Except PlanningError Unit :=
  match config.problems with
  | [] => .ok ()
  | problems => .error (.invalid problems)

def PlanningInput.calendar (input : PlanningInput) (config : Config) : Calendar :=
  ⟨input.period, config.goSlotsExclusive⟩

/-- Checks everything that can be checked before a search and returns the groups to place. -/
def prepare (input : PlanningInput) (config : Config) : Except PlanningError (List ExamGroup) := do
  validate input
  validateConfig config
  if input.rooms.isEmpty && input.exams.any Exam.needsRoom then throw .missingRooms
  let grouping ← (Grouping.build (input.calendar config) input.exams input.committed).mapError .fault
  if grouping.unschedulable.isEmpty then return grouping.groups
  else throw (.unschedulable grouping.unschedulable)

/-- The exam of an ancode; the last of several. -/
def examOf? (exams : List Exam) (ancode : Ancode) : Option Exam :=
  (exams.filter (·.ancode = ancode)).getLast?

/-- All exams of placed groups under the slots of their groups, in the order of their ancodes. -/
def scheduledExams (plan : Plan) (groups : List ExamGroup) (exams : List Exam) : Agenda Exam :=
  let entries := groups.flatMap fun group =>
    match plan.slotOf? group.code with
    | none => []
    | some slot => (group.exams.filterMap (examOf? exams)).map (slot, ·)
  (Agenda.ofEntries entries).map fun (slot, list) =>
    (slot, stableSort (fun a b => a.ancode ≤ b.ancode) list)

/-- The exams that need a room, under their slots. -/
def examsNeedingRooms (plan : Plan) (groups : List ExamGroup) (exams : List Exam) : Agenda Exam :=
  ((scheduledExams plan groups exams).map fun (slot, list) => (slot, list.filter Exam.needsRoom)).filter
    fun (_, list) => !list.isEmpty

end Timetable
