import Timetable.Json.Basic
import Timetable.Fault
import Timetable.Config

/-!
Reading typed values from JSON. A record is an object whose known members occur at most once, or an
array of its fields in order; what an object holds besides is never looked at.
-/

namespace Timetable

namespace Json

def bool? : Json → Option Bool
  | .bool value => some value
  | _ => none

def text? : Json → Option String
  | .string text => text
  | _ => none

/-- A natural number below a limit. -/
def natBelow? (limit : Nat) : Json → Option Nat
  | .number numeral => numeral.nat?.filter (· < limit)
  | _ => none

def number? : Json → Option Nat := natBelow? numberLimit

/-- A seed or a size. -/
def long? : Json → Option Nat := natBelow? UInt64.size

def real? : Json → Option Double
  | .number numeral => numeral.double?
  | _ => none

section

variable {α : Type}

def list? (read : Json → Option α) : Json → Option (List α)
  | .array items => items.mapM read
  | _ => none

def nullable? (read : Json → Option α) : Json → Option (Option α)
  | .null => some none
  | value => (read value).map some

/-- The members of an object under their keys, which all have to be texts. -/
def members? : Json → Option (List (String × Json))
  | .object members => members.mapM fun (key, value) => key.map (·, value)
  | _ => none

/-- An object with keys of its own choice; the last member of a key counts. -/
def table? (read : Json → Option α) (value : Json) : Option (Table α) := do
  let members ← value.members?
  return Table.ofList (← members.mapM fun (key, value) => (read value).map (key, ·))

/-- One of several words, which may also be the only key of an object with the value `null`. -/
def word? (words : List (String × α)) : Json → Option α
  | .string (some word) => words.lookup word
  | .object [(some word, .null)] => words.lookup word
  | _ => none

/-- A value of several kinds, with the name of its kind under `tag` or in front of its fields.
The other members are held back until the kind is known, and nest at most `depth` deep. -/
def tagged? (tag : String) (depth : Nat) (value : Json) : Option (String × Json) :=
  match value with
  | .array (kind :: fields) => do
    if fields.all (retainable depth) then some (← kind.text?, .array fields) else none
  | .object _ => do
    let members ← value.members?
    let others := members.filter (·.1 ≠ tag)
    match members.filter (·.1 = tag) with
    | [(_, kind)] =>
      if others.all fun member => member.2.retainable depth then
        some (← kind.text?, .record others)
      else none
    | _ => none
  | _ => none

end

end Json

/-- The fields of a record that are present. -/
structure Record where
  fields : List (String × Json)
  /-- The record was written as an array. -/
  positional : Bool

namespace Record

variable {α : Type}

def read? (names : List String) (value : Json) : Option Record :=
  match value with
  | .array items => if items.length ≤ names.length then some ⟨names.zip items, true⟩ else none
  | .object _ => do
    let known := (← value.members?).filter fun member => names.contains member.1
    if (known.map (·.1)).Nodup then some ⟨known, false⟩ else none
  | _ => none

def required? (record : Record) (name : String) (read : Json → Option α) : Option α :=
  record.fields.lookup name >>= read

def withDefault? (record : Record) (name : String) (read : Json → Option α) (missing : α) :
    Option α :=
  match record.fields.lookup name with
  | none => some missing
  | some value => read value

/-- A field that may be `null`, and may be missing from an object but not from an array. -/
def nullable? (record : Record) (name : String) (read : Json → Option α) : Option (Option α) :=
  match record.fields.lookup name with
  | none => if record.positional then none else some none
  | some value => value.nullable? read

def list? (record : Record) (name : String) (read : Json → Option α) : Option (List α) :=
  record.withDefault? name (Json.list? read) []

def flag? (record : Record) (name : String) : Option Bool :=
  record.withDefault? name Json.bool? false

end Record

end Timetable
