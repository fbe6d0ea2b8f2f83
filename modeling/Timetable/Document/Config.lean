import Timetable.Document.Groups
import Timetable.Config

/-!
Documents of the planner's settings. Every field may be missing and then has its default.
-/

namespace Timetable

/-- A selection rule stands inside the search settings of a configuration, so three containers are
open around its members. -/
def SelectionRule.ofJson? (value : Json) : Option SelectionRule := do
  let (kind, fields) ← value.tagged? "kind" (nestingLimit - 3)
  match kind with
  | "roulette" => match fields with
    | .array (_ :: _) => none
    | _ => some .roulette
  | "stochastic_universal" => match fields with
    | .array (_ :: _) => none
    | _ => some .stochasticUniversal
  | "rank" =>
    let record ← Record.read? ["pressure"] fields
    return .rank (← record.required? "pressure" Json.real?)
  | _ => none

def SelectionRule.toJson (real : Double → Json) : SelectionRule → Json
  | .roulette => .record [("kind", .ofText "roulette")]
  | .stochasticUniversal => .record [("kind", .ofText "stochastic_universal")]
  | .rank pressure => .record [("kind", .ofText "rank"), ("pressure", real pressure)]

def CrossoverRule.ofJson? : Json → Option CrossoverRule :=
  Json.word? [("one_point", .onePoint), ("uniform", .uniform)]

def CrossoverRule.toJson : CrossoverRule → Json
  | .onePoint => .ofText "one_point"
  | .uniform => .ofText "uniform"

def SearchParams.ofJson? (value : Json) : Option SearchParams := do
  let record ← Record.read? ["population", "runs", "noImprovement", "targetMutation", "selection",
    "crossover", "seed", "parallel"] value
  let standard : SearchParams := {}
  return {
    population := ← record.withDefault? "population" Json.long? standard.population
    runs := ← record.withDefault? "runs" Json.long? standard.runs
    noImprovement := ← record.withDefault? "noImprovement" Json.long? standard.noImprovement
    targetMutation := ← record.withDefault? "targetMutation" Json.real? standard.targetMutation
    selection := ← record.withDefault? "selection" SelectionRule.ofJson? standard.selection
    crossover := ← record.withDefault? "crossover" CrossoverRule.ofJson? standard.crossover
    seed := ← record.withDefault? "seed" Json.long? standard.seed
    parallel := ← record.withDefault? "parallel" Json.bool? standard.parallel
  }

def SearchParams.toJson (real : Double → Json) (params : SearchParams) : Json :=
  .record [
    ("population", .ofNat params.population),
    ("runs", .ofNat params.runs),
    ("noImprovement", .ofNat params.noImprovement),
    ("targetMutation", real params.targetMutation),
    ("selection", params.selection.toJson real),
    ("crossover", params.crossover.toJson),
    ("seed", .ofNat params.seed),
    ("parallel", .bool params.parallel)]

def PenaltyWeights.ofJson? (value : Json) : Option PenaltyWeights := do
  let record ← Record.read? ["sameOrAdjacentSlot", "sameDay", "adjacentDays"] value
  let standard : PenaltyWeights := {}
  return {
    sameOrAdjacentSlot :=
      ← record.withDefault? "sameOrAdjacentSlot" Json.real? standard.sameOrAdjacentSlot
    sameDay := ← record.withDefault? "sameDay" Json.real? standard.sameDay
    adjacentDays := ← record.withDefault? "adjacentDays" Json.real? standard.adjacentDays
  }

def PenaltyWeights.toJson (real : Double → Json) (weights : PenaltyWeights) : Json :=
  .record [
    ("sameOrAdjacentSlot", real weights.sameOrAdjacentSlot),
    ("sameDay", real weights.sameDay),
    ("adjacentDays", real weights.adjacentDays)]

def RoomParams.ofJson? (value : Json) : Option RoomParams := do
  let record ← Record.read? ["smallResidual", "longDurationThreshold", "reserveMinStudents"] value
  let standard : RoomParams := {}
  return {
    smallResidual := ← record.withDefault? "smallResidual" Json.number? standard.smallResidual
    longDurationThreshold :=
      ← record.withDefault? "longDurationThreshold" Json.number? standard.longDurationThreshold
    reserveMinStudents :=
      ← record.withDefault? "reserveMinStudents" Json.number? standard.reserveMinStudents
  }

def RoomParams.toJson (params : RoomParams) : Json :=
  .record [
    ("smallResidual", .ofNat params.smallResidual),
    ("longDurationThreshold", .ofNat params.longDurationThreshold),
    ("reserveMinStudents", .ofNat params.reserveMinStudents)]

def RoomOverride.ofJson? (value : Json) : Option RoomOverride := do
  let record ← Record.read? ["seats", "unavailableSlots"] value
  return {
    seats := ← record.withDefault? "seats" (Json.nullable? Json.number?) none
    unavailableSlots := ← record.list? "unavailableSlots" Slot.ofJson?
  }

def RoomOverride.toJson (settings : RoomOverride) : Json :=
  .record [
    ("seats", .ofOption .ofNat settings.seats),
    ("unavailableSlots", .ofList Slot.toJson settings.unavailableSlots)]

def InvigilationParams.ofJson? (value : Json) : Option InvigilationParams := do
  let record ← Record.read? ["reserveMinRooms"] value
  let standard : InvigilationParams := {}
  return ⟨← record.withDefault? "reserveMinRooms" Json.long? standard.reserveMinRooms⟩

def InvigilationParams.toJson (params : InvigilationParams) : Json :=
  .record [("reserveMinRooms", .ofNat params.reserveMinRooms)]

def InvigilatorOverride.ofJson? (value : Json) : Option InvigilatorOverride := do
  let record ← Record.read? ["excluded", "excludedDays", "excludedSlots"] value
  return {
    excluded := ← record.flag? "excluded"
    excludedDays := ← record.list? "excludedDays" Date.ofJson?
    excludedSlots := ← record.list? "excludedSlots" Slot.ofJson?
  }

def InvigilatorOverride.toJson (settings : InvigilatorOverride) : Json :=
  .record [
    ("excluded", .bool settings.excluded),
    ("excludedDays", .ofList Date.toJson settings.excludedDays),
    ("excludedSlots", .ofList Slot.toJson settings.excludedSlots)]

def Table.toJson {α : Type} (write : α → Json) (table : Table α) : Json :=
  .record (table.map fun (name, value) => (name, write value))

def Config.ofJson? (value : Json) : Option Config := do
  let record ← Record.read? ["ga", "penalties", "goSlotsExclusive", "rooms", "roomOverrides",
    "invigilation", "invigilatorOverrides"] value
  return {
    search := ← record.withDefault? "ga" SearchParams.ofJson? {}
    penalties := ← record.withDefault? "penalties" PenaltyWeights.ofJson? {}
    goSlotsExclusive := ← record.flag? "goSlotsExclusive"
    rooms := ← record.withDefault? "rooms" RoomParams.ofJson? {}
    roomOverrides := ← record.withDefault? "roomOverrides" (Json.table? RoomOverride.ofJson?) []
    invigilation := ← record.withDefault? "invigilation" InvigilationParams.ofJson? {}
    invigilatorOverrides :=
      ← record.withDefault? "invigilatorOverrides" (Json.table? InvigilatorOverride.ofJson?) []
  }

def Config.toJson (real : Double → Json) (config : Config) : Json :=
  .record [
    ("ga", config.search.toJson real),
    ("penalties", config.penalties.toJson real),
    ("goSlotsExclusive", .bool config.goSlotsExclusive),
    ("rooms", config.rooms.toJson),
    ("roomOverrides", Table.toJson RoomOverride.toJson config.roomOverrides),
    ("invigilation", config.invigilation.toJson),
    ("invigilatorOverrides", Table.toJson InvigilatorOverride.toJson config.invigilatorOverrides)]

end Timetable
