import Timetable.Document.Exams
import Timetable.Room

/-!
Documents of rooms, seatings and shortfalls.
-/

namespace Timetable

def Room.ofJson? (value : Json) : Option Room := do
  let record ← Record.read? ["name", "seats", "lab", "restrictedSoftware", "sockets",
    "accessible"] value
  return {
    name := ← record.required? "name" Json.text?
    seats := ← record.required? "seats" Json.number?
    lab := ← record.flag? "lab"
    restrictedSoftware := ← record.flag? "restrictedSoftware"
    sockets := ← record.flag? "sockets"
    accessible := ← record.flag? "accessible"
  }

def Room.toJson (room : Room) : Json :=
  .record [
    ("name", .ofText room.name),
    ("seats", .ofNat room.seats),
    ("lab", .bool room.lab),
    ("restrictedSoftware", .bool room.restrictedSoftware),
    ("sockets", .bool room.sockets),
    ("accessible", .bool room.accessible)]

def Seating.ofJson? (value : Json) : Option Seating := do
  let record ← Record.read? ["slot", "room", "ancode", "duration", "students", "nta",
    "reserve"] value
  return {
    slot := ← record.required? "slot" Slot.ofJson?
    room := ← record.required? "room" Json.text?
    ancode := ← record.required? "ancode" Json.number?
    duration := ← record.required? "duration" Json.number?
    students := ← record.list? "students" Json.text?
    accommodated := ← record.flag? "nta"
    reserve := ← record.flag? "reserve"
  }

def Seating.toJson (seating : Seating) : Json :=
  .record [
    ("slot", seating.slot.toJson),
    ("room", .ofText seating.room),
    ("ancode", .ofNat seating.ancode),
    ("duration", .ofNat seating.duration),
    ("students", .ofList .ofText seating.students),
    ("nta", .bool seating.accommodated),
    ("reserve", .bool seating.reserve)]

def Shortfall.toJson (shortfall : Shortfall) : Json :=
  .record [
    ("slot", shortfall.slot.toJson),
    ("ancode", .ofNat shortfall.ancode),
    ("students", .ofNat shortfall.students),
    ("reason", .ofText shortfall.reason.text)]

def RoomPlan.toJson (plan : RoomPlan) : Json :=
  .record [
    ("rooms", .ofList Seating.toJson plan.seatings),
    ("shortfalls", .ofList Shortfall.toJson plan.shortfalls)]

end Timetable
