import Timetable.Json.Token

/-!
Reading JSON values from tokens with a stack of open containers, one step a token. Nesting is not
bounded: what a document may not nest is for its reader to say.
-/

namespace Timetable.Json

/-- A container that has been opened and not yet closed, its entries last first. An open object
also holds the key that its next value belongs to. -/
inductive Frame where
  | array (reversed : List Json)
  | object (reversed : List (Option String × Json)) (key : Option String)

/-- What may come next. -/
inductive Progress where
  /-- A value. -/
  | needsValue (outer : List Frame)
  /-- A value, or the end of an array that was just opened. -/
  | needsItem (outer : List Frame)
  /-- A key, or the end of an object that was just opened. -/
  | needsMember (outer : List Frame)
  /-- A key. -/
  | needsKey (reversed : List (Option String × Json)) (outer : List Frame)
  /-- The colon after a key. -/
  | needsColon (reversed : List (Option String × Json)) (key : Option String) (outer : List Frame)
  /-- A comma, or the end of the innermost container, or the end of everything. -/
  | ended (value : Json) (outer : List Frame)

namespace Progress

/-- A token that has to begin a value. -/
def beginValue? (outer : List Frame) : Token → Option Progress
  | .scalar value => some (.ended value outer)
  | .text value => some (.ended (.string value) outer)
  | .openArray => some (.needsItem outer)
  | .openObject => some (.needsMember outer)
  | _ => none

def step? (progress : Progress) (token : Token) : Option Progress :=
  match progress, token with
  | .needsValue outer, token => beginValue? outer token
  | .needsItem outer, .closeArray => some (.ended (.array []) outer)
  | .needsItem outer, token => beginValue? (.array [] :: outer) token
  | .needsMember outer, .closeObject => some (.ended (.object []) outer)
  | .needsMember outer, .text key => some (.needsColon [] key outer)
  | .needsKey reversed outer, .text key => some (.needsColon reversed key outer)
  | .needsColon reversed key outer, .colon => some (.needsValue (.object reversed key :: outer))
  | .ended value (.array reversed :: outer), .comma =>
    some (.needsValue (.array (value :: reversed) :: outer))
  | .ended value (.array reversed :: outer), .closeArray =>
    some (.ended (.array (value :: reversed).reverse) outer)
  | .ended value (.object reversed key :: outer), .comma =>
    some (.needsKey ((key, value) :: reversed) outer)
  | .ended value (.object reversed key :: outer), .closeObject =>
    some (.ended (.object ((key, value) :: reversed).reverse) outer)
  | _, _ => none

def run? (progress : Progress) : List Token → Option Progress
  | [] => some progress
  | token :: rest => match progress.step? token with
    | none => none
    | some after => run? after rest

end Progress

/-- The value that a list of tokens spells. -/
def ofTokens? (tokens : List Token) : Option Json :=
  match Progress.run? (.needsValue []) tokens with
  | some (.ended value []) => some value
  | _ => none

/-- The value that a text spells. -/
def parse? (text : String) : Option Json := tokens? text >>= ofTokens?

end Timetable.Json
