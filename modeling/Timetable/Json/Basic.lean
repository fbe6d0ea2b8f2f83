import Timetable.Json.Numeral

/-!
JSON values as a document spells them. Members keep their order and repetitions, and a string whose
escapes form no text stays a string: it is the reader of a document who decides what a repeated
member or such a string means.
-/

namespace Timetable

/-- A JSON value. A string is `none` when its escapes leave half of a surrogate pair, which the
grammar allows although no text answers to it. -/
inductive Json where
  | null
  | bool (value : Bool)
  | number (value : Numeral)
  | string (text : Option String)
  | array (items : List Json)
  | object (members : List (Option String × Json))
deriving Repr

namespace Json

def ofText (text : String) : Json := .string (some text)

def ofNat (n : Nat) : Json := .number (.ofNat n)

def ofInt (n : Int) : Json := .number (.ofInt n)

def ofList {α : Type} (write : α → Json) (items : List α) : Json := .array (items.map write)

def ofOption {α : Type} (write : α → Json) : Option α → Json
  | none => .null
  | some value => write value

/-- An object of named members, in the order given. -/
def record (members : List (String × Json)) : Json :=
  .object (members.map fun member => (some member.1, member.2))

/-- Whether a value can be held back and read later: its texts are texts, its numerals are in
range, and arrays and objects nest at most `depth` deep. -/
def retainable (depth : Nat) : Json → Bool
  | .null | .bool _ => true
  | .number value => value.double?.isSome
  | .string text => text.isSome
  | .array items => match depth with
    | 0 => false
    | depth + 1 => retainableItems depth items
  | .object members => match depth with
    | 0 => false
    | depth + 1 => retainableMembers depth members
where
  retainableItems (depth : Nat) : List Json → Bool
    | [] => true
    | item :: items => retainable depth item && retainableItems depth items
  retainableMembers (depth : Nat) : List (Option String × Json) → Bool
    | [] => true
    | (key, value) :: members =>
      key.isSome && retainable depth value && retainableMembers depth members

end Json

end Timetable
