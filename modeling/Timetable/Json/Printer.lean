import Timetable.Json.Token

/-!
Writing JSON values: as a list of tokens, on one line, and laid out with one entry a line.
-/

namespace Timetable.Json

/-- The tokens of a value. -/
def tokens : Json → List Token
  | .null => [.scalar .null]
  | .bool value => [.scalar (.bool value)]
  | .number value => [.scalar (.number value)]
  | .string value => [.text value]
  | .array items => .openArray :: itemTokens items ++ [.closeArray]
  | .object members => .openObject :: memberTokens members ++ [.closeObject]
where
  itemTokens : List Json → List Token
    | [] => []
    | [item] => item.tokens
    | item :: items => item.tokens ++ .comma :: itemTokens items
  memberTokens : List (Option String × Json) → List Token
    | [] => []
    | [(key, value)] => .text key :: .colon :: value.tokens
    | (key, value) :: members => .text key :: .colon :: value.tokens ++ .comma :: memberTokens members

/-- A value on one line, without blanks. -/
def compact (value : Json) : String := String.ofList (value.tokens.flatMap Token.chars)

/-- A line break, and the blanks that open a line at a depth. -/
def lineBreak (depth : Nat) : List Char := '\n' :: List.replicate (2 * depth) ' '

/-- A value with one entry a line, two blanks a level, and empty containers closed at once. -/
def layout (depth : Nat) : Json → List Char
  | .null => Token.chars (.scalar .null)
  | .bool value => Token.chars (.scalar (.bool value))
  | .number value => Token.chars (.scalar (.number value))
  | .string value => Token.chars (.text value)
  | .array [] => ['[', ']']
  | .array (item :: items) =>
    '[' :: layoutItems (depth + 1) (item :: items) ++ lineBreak depth ++ [']']
  | .object [] => ['\x7b', '\x7d']
  | .object (member :: members) =>
    '\x7b' :: layoutMembers (depth + 1) (member :: members) ++ lineBreak depth ++ ['\x7d']
where
  layoutItems (depth : Nat) : List Json → List Char
    | [] => []
    | [item] => lineBreak depth ++ layout depth item
    | item :: items => lineBreak depth ++ layout depth item ++ ',' :: layoutItems depth items
  layoutMembers (depth : Nat) : List (Option String × Json) → List Char
    | [] => []
    | [(key, value)] => lineBreak depth ++ layoutMember depth key value
    | (key, value) :: members =>
      lineBreak depth ++ layoutMember depth key value ++ ',' :: layoutMembers depth members
  layoutMember (depth : Nat) (key : Option String) (value : Json) : List Char :=
    Token.chars (.text key) ++ ':' :: ' ' :: layout depth value

def pretty (value : Json) : String := String.ofList (layout 0 value)

end Timetable.Json
