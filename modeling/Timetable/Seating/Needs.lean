import Timetable.Room

/-!
What an exam or a student requires of a room, and which rooms offer it.
-/

namespace Timetable

structure RoomNeeds where
  lab : Bool
  restrictedSoftware : Bool
  sockets : Bool
  accessible : Bool
deriving DecidableEq, Repr

namespace RoomNeeds

def ofExam (exam : Exam) : RoomNeeds :=
  let required := exam.constraints.rooms
  ⟨required.lab, required.restrictedSoftware, required.sockets, false⟩

/-- The needs of a student who sits alone. -/
def withAccessible (needs : RoomNeeds) : RoomNeeds := { needs with accessible := true }

def isEmpty (needs : RoomNeeds) : Bool :=
  !(needs.lab || needs.restrictedSoftware || needs.sockets || needs.accessible)

/-- Everything required is there; and where nothing is required, special rooms are not given away. -/
def satisfiedBy (needs : RoomNeeds) (room : Room) : Bool :=
  if needs.isEmpty then !room.isSpecial
  else
    (!needs.lab || room.lab)
      && (!needs.restrictedSoftware || room.restrictedSoftware)
      && (!needs.sockets || room.sockets)
      && (!needs.accessible || room.accessible)

end RoomNeeds

end Timetable
