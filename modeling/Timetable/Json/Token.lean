import Timetable.Json.Basic
import Timetable.Json.Escape

/-!
Tokens of JSON text. Reading them is one pass over the characters: what has been begun but not yet
ended is a `Pending` token, and every character either extends it or ends it.
-/

namespace Timetable.Json

inductive Token where
  | openArray
  | closeArray
  | openObject
  | closeObject
  | comma
  | colon
  | scalar (value : Json)
  | text (value : Option String)

namespace Token

/-- The token that a run of letters, digits, signs and points spells. -/
def ofWord? (word : List Char) : Option Token :=
  if word = ['t', 'r', 'u', 'e'] then some (.scalar (.bool true))
  else if word = ['f', 'a', 'l', 's', 'e'] then some (.scalar (.bool false))
  else if word = ['n', 'u', 'l', 'l'] then some (.scalar .null)
  else (Numeral.ofChars? word).map fun numeral => .scalar (.number numeral)

/-- The spelling of a token. -/
def chars : Token → List Char
  | .openArray => ['[']
  | .closeArray => [']']
  | .openObject => ['\x7b']
  | .closeObject => ['\x7d']
  | .comma => [',']
  | .colon => [':']
  | .scalar (.bool true) => ['t', 'r', 'u', 'e']
  | .scalar (.bool false) => ['f', 'a', 'l', 's', 'e']
  | .scalar (.number numeral) => numeral.chars
  | .scalar _ => ['n', 'u', 'l', 'l']
  | .text value => '"' :: Escape.write value ++ ['"']

end Token

/-- What a scan has begun and not yet ended; characters are kept last first. -/
inductive Pending where
  | nothing
  | word (reversed : List Char)
  | text (reversed : List Char)
  | escape (reversed : List Char)

namespace Pending

def isBlank (c : Char) : Bool := c = ' ' || c = '\t' || c = '\n' || c = '\x0d'

def isWordChar (c : Char) : Bool := c.isAlphanum || c = '-' || c = '+' || c = '.'

/-- A character outside every token, with the token it makes by itself. -/
def start? (c : Char) : Option (Pending × List Token) :=
  if isBlank c then some (.nothing, [])
  else if isWordChar c then some (.word [c], [])
  else match c with
    | '"' => some (.text [], [])
    | '[' => some (.nothing, [.openArray])
    | ']' => some (.nothing, [.closeArray])
    | '\x7b' => some (.nothing, [.openObject])
    | '\x7d' => some (.nothing, [.closeObject])
    | ',' => some (.nothing, [.comma])
    | ':' => some (.nothing, [.colon])
    | _ => none

/-- One character: what is pending after it, and the tokens it ends. -/
def next? (pending : Pending) (c : Char) : Option (Pending × List Token) :=
  match pending with
  | .nothing => start? c
  | .word reversed =>
    if isWordChar c then some (.word (c :: reversed), []) else do
      let token ← Token.ofWord? reversed.reverse
      let (after, tokens) ← start? c
      return (after, token :: tokens)
  | .text reversed =>
    if c = '"' then do return (.nothing, [.text (← Escape.read? reversed.reverse)])
    else if c = '\\' then some (.escape reversed, [])
    else if c.toNat < 32 then none
    else some (.text (c :: reversed), [])
  | .escape reversed => some (.text (c :: '\\' :: reversed), [])

/-- What the end of the text ends. -/
def finish? : Pending → Option (List Token)
  | .nothing => some []
  | .word reversed => (Token.ofWord? reversed.reverse).map ([·])
  | .text _ | .escape _ => none

/-- The tokens of the rest of a text; `reversed` holds those already found. -/
def scan? (pending : Pending) (reversed : List Token) : List Char → Option (List Token)
  | [] => pending.finish?.map (reversed.reverse ++ ·)
  | c :: rest => match pending.next? c with
    | none => none
    | some (after, tokens) => scan? after (tokens.reverse ++ reversed) rest

end Pending

/-- The tokens of a text. -/
def tokens? (text : String) : Option (List Token) := Pending.scan? .nothing [] text.toList

end Timetable.Json
