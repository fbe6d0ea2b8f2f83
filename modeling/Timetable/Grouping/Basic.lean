import Timetable.Calendar.Basic
import Timetable.Conflicts
import Timetable.Group
import Timetable.Grouping.Partition

/-!
Exam groups from same-slot links: which exams share a slot, which slots they may take together,
and how many students any two groups share.
-/

namespace Timetable

/-- A group that is to be placed and has no slot to go to. -/
structure UnschedulableGroup where
  group : GroupCode
  exams : List Ancode
deriving DecidableEq, Repr

def UnschedulableGroup.text (group : UnschedulableGroup) : String :=
  let exams := " ".intercalate (group.exams.map toString)
  s!"group {group.group} [{exams}]"

structure Grouping where
  groups : List ExamGroup
  unschedulable : List UnschedulableGroup
  /-- The group of every ancode, by ascending ancodes. -/
  groupOf : List (Ancode × GroupCode)
deriving DecidableEq, Repr

namespace Grouping

/-- The place of an exam in the list; the last of several with one ancode. -/
def indexOf? (exams : List Exam) (ancode : Ancode) : Option Nat :=
  ((exams.zipIdx.filter (·.1.ancode = ancode)).getLast?).map (·.2)

/-- The places of exams, joined by the links between them. Links to unknown exams join nothing. -/
def partition (exams : List Exam) : Partition :=
  exams.zipIdx.foldl (fun partition (exam, place) =>
    exam.constraints.sameSlot.foldl (fun partition linked =>
      match indexOf? exams linked with
      | some other => partition.union place other
      | none => partition) partition)
    (.discrete exams.length)

/-- The exams of every group, groups and members in list order. -/
def memberLists (exams : List Exam) : List (List Exam) :=
  (partition exams).classes.map fun places => places.filterMap (exams[·]?)

/-- The slots that all members may take. -/
def commonSlots (calendar : Calendar) : List Exam → List Slot
  | [] => []
  | first :: others =>
    (calendar.allowedSlots first).filter fun slot =>
      others.all fun exam => (calendar.allowedSlots exam).contains slot

/-- The slot that a group has been committed to; the last entry counts. -/
def committedSlot? (committed : List Placement) (code : GroupCode) : Option Slot :=
  ((committed.filter (·.group = code)).getLast?).map (·.slot)

/-- A group is external if all of it is planned elsewhere; its slot is the committed one or the only
one it may take. A committed group keeps its slot. -/
def stateOf (members : List Exam) (committed : Option Slot) (common : List Slot) : GroupState :=
  if members.all (·.constraints.plannedElsewhere) then
    match committed, common with
    | some slot, _ => .external (some slot)
    | none, [slot] => .external (some slot)
    | none, _ => .external none
  else match committed with
    | some slot => .locked slot
    | none => .scheduled

/-- The group of some exams, without its conflicts. -/
def bareGroup (calendar : Calendar) (committed : List Placement) (members : List Exam) (studentCount : Nat) :
    ExamGroup :=
  let exams := stableSort (· ≤ ·) (members.map (·.ancode))
  let code := exams.headD 0
  let common := commonSlots calendar members
  let state := stateOf members (committedSlot? committed code) common
  { code
    exams
    studentCount
    maxDuration := (members.map (·.duration)).foldl max 0
    allowedSlots := match state.recorded? with
      | some slot => [slot]
      | none => common
    conflicts := []
    state }

/-- The registrations of an exam as a number of a document. -/
def headCount (exam : Exam) : Nat := exam.students.length % numberLimit

def groupOfMembers (calendar : Calendar) (committed : List Placement) (members : List Exam) :
    Except Fault ExamGroup := do
  return bareGroup calendar committed members (← numberSum (members.map headCount))

/-- A group that has to be placed in a slot of its own choice and has none. -/
def unschedulable? (group : ExamGroup) : Option UnschedulableGroup :=
  if group.state = .scheduled ∧ group.allowedSlots = [] then some ⟨group.code, group.exams⟩
  else none

/-- The group of an ancode; the last group that holds it. -/
def codeOf? (groups : List ExamGroup) (ancode : Ancode) : Option GroupCode :=
  ((groups.filter (·.exams.contains ancode)).getLast?).map (·.code)

/-- Adds up the students of exams by the groups of the exams, for either group. Exams of one group have
no conflict. -/
def groupWeights (groups : List ExamGroup) (conflicts : Tally) : Except Fault Tally :=
  conflicts.foldlM (fun weights ((a, b), students) =>
    match codeOf? groups a, codeOf? groups b with
    | some first, some second =>
      if first = second then return weights
      else do (← weights.add (first, second) students).add (second, first) students
    | _, _ => return weights) []

/-- The weights of one group, by the other group. -/
def conflictsOf (weights : Tally) (code : GroupCode) : List GroupConflict :=
  (weights.filter (·.1.1 = code)).map fun ((_, other), students) => ⟨other, students⟩

/-- Gives each group its conflicts; of groups with one code only the last has any. -/
def withConflicts (weights : Tally) : List ExamGroup → List ExamGroup
  | [] => []
  | group :: rest =>
    let conflicts :=
      if rest.any (·.code = group.code) then [] else conflictsOf weights group.code
    { group with conflicts } :: withConflicts weights rest

/-- Puts groups together that have been found, with their weights. -/
def ofFound (exams : List Exam) (found : List ExamGroup) (weights : Tally) : Grouping where
  groups := withConflicts weights (stableSort (fun a b => a.code ≤ b.code) found)
  unschedulable := found.filterMap unschedulable?
  groupOf := (ascending (exams.map (·.ancode))).filterMap fun ancode =>
    (codeOf? found ancode).map (ancode, ·)

/-- Builds the groups of all exams, in ascending order of their codes. -/
def build (calendar : Calendar) (exams : List Exam) (committed : List Placement) : Except Fault Grouping := do
  let found ← (memberLists exams).mapM (groupOfMembers calendar committed)
  return ofFound exams found (← groupWeights found (← examConflicts exams))

end Grouping

end Timetable
