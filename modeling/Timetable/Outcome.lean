import Timetable.Search.BestPlan
import Timetable.Seating.Allocation
import Timetable.Staffing.Balance

/-!
Planning from the checks to the staffing of rooms, with the genetic search or any other scheduler.
-/

namespace Timetable

/-- Places the groups of a planning run. -/
abbrev Scheduler := List ExamGroup → Except PlanningError Plan

/-- A plan whose placements were not searched for. -/
def Plan.ofPlacements (placements : List Placement) : Plan := ⟨placements, 0.0, 0.0, 0, 0⟩

namespace Scheduler

/-- The search with the settings of a configuration. -/
def genetic (config : Config) : Scheduler := fun groups =>
  (Search.ofGroups config.search config.penalties groups).schedule

/-- The same placements whatever the groups are. -/
def fixed (placements : List Placement) : Scheduler := fun _ => .ok (.ofPlacements placements)

/-- Never finds a plan. -/
def failing (clashes : List Clash) : Scheduler := fun _ => .error (.noValidPlan clashes)

/-- Places every group that has to be placed in the first slot it may take, if there is one. -/
def firstAllowed : Scheduler := fun groups =>
  .ok <| .ofPlacements <| (groups.filter ExamGroup.isPlaceable).filterMap fun group =>
    group.allowedSlots.head?.map (⟨group.code, ·⟩)

end Scheduler

/-- The rooms and the staff of a plan. -/
def furnish (input : PlanningInput) (config : Config) (groups : List ExamGroup) (plan : Plan) :
    Except Fault Outcome := do
  let rooms ← (Allocator.ofConfig input.rooms config).allocate
    (examsNeedingRooms plan groups input.exams) input.accommodations input.pinned
  let staffing ← Staffing.balance input.invigilators config rooms.seatings
    (scheduledExams plan groups input.exams) (input.calendar config)
  return ⟨groups, plan, rooms, staffing⟩

/-- Plans an input with a scheduler. Missing rooms and staff do not stop it: they are part of the
outcome. -/
def planWith (scheduler : Scheduler) (input : PlanningInput) (config : Config) :
    Except PlanningError Outcome := do
  let groups ← prepare input config
  let plan ← scheduler groups
  (furnish input config groups plan).mapError .fault

/-- Plans an input with the genetic search. -/
def plan (input : PlanningInput) (config : Config) : Except PlanningError Outcome :=
  planWith (.genetic config) input config

end Timetable
