import Timetable.Calendar.Basic
import Timetable.Group
import Timetable.Staff

/-!
What a planning run starts from and what it yields.
-/

namespace Timetable

structure PlanningInput where
  period : ExamPeriod
  exams : List Exam
  accommodations : List Accommodation
  rooms : List Room
  invigilators : List Invigilator
  /-- Placements of an earlier plan that have to be kept. -/
  committed : List Placement
  /-- Seatings of an earlier plan that have to be kept as far as seats allow. -/
  pinned : List Seating
deriving DecidableEq, Repr

structure Outcome where
  groups : List ExamGroup
  plan : Plan
  rooms : RoomPlan
  staffing : StaffingReport
deriving DecidableEq, Repr

end Timetable
