import Timetable.Calendar.Basic
import Timetable.Config
import Timetable.Staffing.Duty

/-!
Giving duties to invigilators. In every slot examiners first take the room in which alone their own
exam sits; the other duties go, one after the other, to whoever is furthest behind the minutes they
owe. Nobody has two duties in a slot.
-/

namespace Timetable

namespace Staffing

/-- The share of all minutes by factors, rounded, less what is contributed elsewhere, and not below
zero. Nothing is owed where all factors together are not positive. -/
def requiredMinutes (totalDuty totalOther : Nat) (totalFactors factor : Double)
    (otherContributions : Nat) : Except Fault Nat :=
  if totalFactors ≤ 0 then .ok 0
  else
    let share := (Double.ofNat totalDuty + .ofNat totalOther) / totalFactors * factor
    let owed := share.nearestInt64 - otherContributions
    if owed < -0x8000000000000000 then .error .overflow else .ok (owed.toNat % numberLimit)

/-- An invigilator who takes part, with the exclusions of the configuration added. -/
structure Member where
  invigilator : Invigilator
  excludedDays : List Date
  excludedSlots : List Slot

namespace Member

def id (member : Member) : StaffId := member.invigilator.id

def isAvailable (member : Member) (slot : Slot) (date : Option Date) : Bool :=
  !member.excludedSlots.contains slot
    && match date with
      | none => true
      | some date => !member.excludedDays.contains date

end Member

/-- The invigilators that are not excluded, by their ids. -/
def members (invigilators : List Invigilator) (overrides : Table InvigilatorOverride) : List Member :=
  let taking := invigilators.filterMap fun invigilator =>
    let settings := (overrides.find? invigilator.id).getD {}
    if settings.excluded then none
    else some ⟨invigilator, invigilator.excludedDays ++ settings.excludedDays,
      invigilator.excludedSlots ++ settings.excludedSlots⟩
  stableSort (fun a b => a.id ≤ b.id) taking

/-- What the duties are given out by. -/
structure Setting where
  members : List Member
  /-- The minutes each member owes. -/
  required : List Nat
  seatings : List Seating
  scheduled : Agenda Exam
  calendar : Calendar

/-- The minutes each member owes of all duties. -/
def requiredOf (members : List Member) (duties : Agenda Duty) : Except Fault (List Nat) := do
  let totalDuty ← numberSum (duties.values.map (·.duration))
  let totalOther ← numberSum (members.map (·.invigilator.otherContributions))
  let totalFactors := Double.sum (members.map (·.invigilator.factor))
  members.mapM fun member =>
    requiredMinutes totalDuty totalOther totalFactors member.invigilator.factor
      member.invigilator.otherContributions

/-- What has been given out. -/
structure Progress where
  /-- The minutes given to each member. -/
  assigned : List Nat
  invigilations : List Invigilation
  unassigned : List (Slot × Option RoomName)
  /-- The members that have a duty in the current slot. -/
  busy : List Nat

namespace Progress

/-- Gives a duty to the member at a place. -/
def give (progress : Progress) (member : Member) (place : Nat) (duty : Duty) (ownExam : Bool) :
    Except Fault Progress := do
  let minutes ← numberOf (progress.assigned.getD place 0 + duty.duration)
  return { progress with
    assigned := progress.assigned.set place minutes
    invigilations := progress.invigilations
      ++ [⟨duty.slot, duty.room, member.id, duty.duration, ownExam⟩]
    busy := place :: progress.busy }

def leaveOpen (progress : Progress) (duty : Duty) : Progress :=
  { progress with unassigned := progress.unassigned ++ [(duty.slot, duty.room)] }

end Progress

/-- The examiner of an exam; of several the last scheduled counts. -/
def examinerOf? (scheduled : Agenda Exam) (ancode : Ancode) : Option StaffId :=
  ((scheduled.values.filter (·.ancode = ancode)).getLast?).map (·.examiner)

/-- The first member of an id, with the place in the pool. -/
def memberOf? (members : List Member) (id : StaffId) : Option (Member × Nat) :=
  members.zipIdx.find? (·.1.id = id)

/-- The member who examines an exam that occupies a single room in the slot, if free to watch it. -/
def examinerFor? (setting : Setting) (busy : List Nat) (slot : Slot) (ancode : Ancode) :
    Option (Member × Nat) := do
  if (roomsOf setting.seatings slot ancode).length ≠ 1 then none
  let (member, place) ← memberOf? setting.members (← examinerOf? setting.scheduled ancode)
  if busy.contains place || !member.isAvailable slot (setting.calendar.dateOf? slot) then none
  return (member, place)

/-- The member who watches a room because of an own exam: the first one by the exams. -/
def ownInvigilator? (setting : Setting) (busy : List Nat) (duty : Duty) : Option (Member × Nat) :=
  match duty.room with
  | none => none
  | some _ => duty.exams.findSome? (examinerFor? setting busy duty.slot)

/-- Gives the duties of a slot that fall to examiners, and collects the others. -/
def giveOwn (setting : Setting) (progress : Progress) :
    List Duty → Except Fault (Progress × List Duty)
  | [] => .ok (progress, [])
  | duty :: rest =>
    match ownInvigilator? setting progress.busy duty with
    | some (member, place) => do
      let progress ← progress.give member place duty true
      giveOwn setting progress rest
    | none => do
      let (progress, others) ← giveOwn setting progress rest
      return (progress, duty :: others)

/-- The minutes that a member still owes. -/
def owed (setting : Setting) (assigned : List Nat) (place : Nat) : Int :=
  (setting.required.getD place 0 : Int) - assigned.getD place 0

/-- Whether a member may take a duty in a slot that is none of an own exam. -/
def isEligible (setting : Setting) (busy : List Nat) (slot : Slot) (member : Member) (place : Nat) :
    Bool :=
  !busy.contains place
    && !((setting.scheduled.under slot).any (·.examiner = member.id))
    && member.isAvailable slot (setting.calendar.dateOf? slot)

/-- The eligible member who owes most; of equals the one with the smaller id. -/
def furthestBehind? (setting : Setting) (progress : Progress) (slot : Slot) :
    Option (Member × Nat) :=
  lastMax? (fun a b =>
      let owedA := owed setting progress.assigned a.2
      let owedB := owed setting progress.assigned b.2
      owedA < owedB || (owedA = owedB && b.1.id ≤ a.1.id))
    (setting.members.zipIdx.filter fun (member, place) =>
      isEligible setting progress.busy slot member place)

/-- Gives a duty to whoever is furthest behind, or leaves it open. -/
def giveOpen (setting : Setting) (progress : Progress) (duty : Duty) : Except Fault Progress :=
  match furthestBehind? setting progress duty.slot with
  | some (member, place) => progress.give member place duty false
  | none => .ok (progress.leaveOpen duty)

/-- Gives out the duties of one slot. -/
def giveSlot (setting : Setting) (progress : Progress) (duties : List Duty) :
    Except Fault Progress := do
  let (progress, others) ← giveOwn setting { progress with busy := [] } duties
  others.foldlM (giveOpen setting) progress

def balanceOf (member : Member) (required assigned : Nat) : Balance :=
  ⟨member.id, required, assigned, assigned - required⟩

/-- The balances of all members. -/
def balances (setting : Setting) (assigned : List Nat) : List Balance :=
  setting.members.zipIdx.map fun (member, place) =>
    balanceOf member (setting.required.getD place 0) (assigned.getD place 0)

def greatest : List Int → Int
  | [] => 0
  | first :: rest => rest.foldl max first

def least : List Int → Int
  | [] => 0
  | first :: rest => rest.foldl min first

/-- Gives out all duties of a room plan and reports what came of it. `scheduled` holds all exams of
every slot, those without a room too: their examiners get no other duty in it. -/
def balance (invigilators : List Invigilator) (config : Config) (seatings : List Seating)
    (scheduled : Agenda Exam) (calendar : Calendar) : Except Fault StaffingReport := do
  let members := members invigilators config.invigilatorOverrides
  let duties := duties seatings config.invigilation.reserveMinRooms
  let required ← requiredOf members duties
  let setting : Setting := ⟨members, required, seatings, scheduled, calendar⟩
  let start : Progress := ⟨members.map fun _ => 0, [], [], []⟩
  let progress ← duties.foldlM (fun progress (_, list) => giveSlot setting progress list) start
  let balances := balances setting progress.assigned
  let deviations := balances.map (·.deviation)
  return {
    invigilations := progress.invigilations
    balances
    maxDeviation := greatest deviations
    minDeviation := least deviations
    unassigned := progress.unassigned
  }

end Staffing

end Timetable
