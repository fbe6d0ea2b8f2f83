import Timetable.Config

/-!
The groups that have to be placed and the conflicts between them, and what an assignment of one
slot to each group costs. Groups are named by their place in the list.
-/

namespace Timetable

/-- Students shared with the group at another place. -/
structure ConflictEdge where
  target : Nat
  students : Nat
deriving DecidableEq, Repr

/-- A group that has to be placed. -/
structure ConflictNode where
  code : GroupCode
  /-- The slots it may take. -/
  domain : List Slot
  external : Bool
  edges : List ConflictEdge
deriving DecidableEq, Repr

structure ConflictGraph where
  nodes : List ConflictNode
deriving DecidableEq, Repr

/-- The cost factor of two slots for a student who sits an exam in each. -/
def PenaltyWeights.multiplier (weights : PenaltyWeights) (a b : Slot) : Double :=
  if a.tooClose b then weights.sameOrAdjacentSlot
  else if a.day = b.day then weights.sameDay
  else if a.onAdjacentDays b then weights.adjacentDays
  else 0

/-- The fitness of a penalty: 1 for none, and towards 0 as it grows. -/
def fitnessOf (penalty : Double) : Double := 1 / (1 + penalty)

namespace ConflictGraph

/-- The place of a group; the last of several with one code. -/
def placeOf? (groups : List ExamGroup) (code : GroupCode) : Option Nat :=
  ((groups.zipIdx.filter (·.1.code = code)).getLast?).map (·.2)

/-- The conflicts of a group with students in them and with groups that have to be placed. -/
def edgesOf (groups : List ExamGroup) (group : ExamGroup) : List ConflictEdge :=
  (group.conflicts.filter (0 < ·.students)).filterMap fun conflict =>
    (placeOf? groups conflict.group).map fun target => ⟨target, conflict.students⟩

def ofGroups (groups : List ExamGroup) : ConflictGraph :=
  let placeable := groups.filter ExamGroup.isPlaceable
  ⟨placeable.map fun group =>
    ⟨group.code, group.allowedSlots, group.isExternal, edgesOf placeable group⟩⟩

def size (graph : ConflictGraph) : Nat := graph.nodes.length

def codes (graph : ConflictGraph) : List GroupCode := graph.nodes.map (·.code)

def domains (graph : ConflictGraph) : List (List Slot) := graph.nodes.map (·.domain)

/-- The slot at a place of an assignment. -/
def slotAt (assignment : Array Slot) (place : Nat) : Except Fault Slot :=
  match assignment[place]? with
  | some slot => .ok slot
  | none => .error .outOfRange

/-- Whether an assignment of some length has a slot for both ends of every edge. -/
def isCovered (graph : ConflictGraph) (length : Nat) : Bool :=
  graph.nodes.zipIdx.all fun (node, place) =>
    node.edges.all fun edge => place < length && edge.target < length

/-- The weighted conflicts of all edges. -/
def cost (graph : ConflictGraph) (weights : PenaltyWeights) (slots : Array Slot) : Double :=
  graph.nodes.zipIdx.foldl (fun total (node, place) =>
    let own := slots.getD place .nowhere
    node.edges.foldl (fun total edge =>
      let other := slots.getD edge.target .nowhere
      total + weights.multiplier own other * .ofNat edge.students) total) 0

/-- The weighted conflicts of an assignment. Every conflict is met from both sides, hence the half. -/
def penalty (graph : ConflictGraph) (weights : PenaltyWeights) (assignment : List Slot) :
    Except Fault Double :=
  if graph.isCovered assignment.length then .ok (graph.cost weights assignment.toArray / 2)
  else .error .outOfRange

/-- The clash along one edge, looked at from its smaller end. External groups clash with nobody. -/
def clashAlong (graph : ConflictGraph) (slots : Array Slot) (node : ConflictNode) (place : Nat)
    (edge : ConflictEdge) : Except Fault (List Clash) :=
  match graph.nodes[edge.target]? with
  | none => .error .outOfRange
  | some other =>
    if edge.target ≤ place ∨ node.external ∨ other.external then .ok []
    else do
      let own ← slotAt slots place
      let theirs ← slotAt slots edge.target
      return if own.tooClose theirs then [⟨node.code, other.code, edge.students⟩] else []

/-- Pairs of groups with shared students in the same or neighbouring slots. -/
def clashes (graph : ConflictGraph) (assignment : List Slot) : Except Fault (List Clash) := do
  let slots := assignment.toArray
  let found ← graph.nodes.zipIdx.mapM fun (node, place) =>
    node.edges.mapM (graph.clashAlong slots node place)
  return (found.map List.flatten).flatten

/-- The slot that a plan's last placement of a group names. -/
def placedSlot? (placements : List Placement) (code : GroupCode) : Option Slot :=
  ((placements.filter (·.group = code)).getLast?).map (·.slot)

/-- The slots of a plan in the order of the groups; none if a group has no placement. -/
def assignmentOf? (graph : ConflictGraph) (placements : List Placement) : Option (List Slot) :=
  graph.codes.mapM (placedSlot? placements)

end ConflictGraph

end Timetable
