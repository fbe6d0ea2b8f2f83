/-!
Text inside JSON quotes. Reading takes a literal apart into 16-bit units and joins surrogate pairs;
writing escapes the quote, the backslash and the control characters and nothing else.
-/

namespace Timetable.Json.Escape

def hexDigit? (c : Char) : Option Nat :=
  if '0' ≤ c ∧ c ≤ '9' then some (c.toNat - '0'.toNat)
  else if 'a' ≤ c ∧ c ≤ 'f' then some (c.toNat - 'a'.toNat + 10)
  else if 'A' ≤ c ∧ c ≤ 'F' then some (c.toNat - 'A'.toNat + 10)
  else none

/-- The character that a one-letter escape stands for. -/
def short? (c : Char) : Option Char :=
  match c with
  | '"' => some '"'
  | '\\' => some '\\'
  | '/' => some '/'
  | 'b' => some '\x08'
  | 'f' => some '\x0c'
  | 'n' => some '\n'
  | 'r' => some '\x0d'
  | 't' => some '\t'
  | _ => none

/-- The code points of a literal, escaped surrogates one by one; none for an unknown escape. -/
def units? : List Char → Option (List Nat)
  | [] => some []
  | '\\' :: 'u' :: a :: b :: c :: d :: rest => do
    let unit := 4096 * (← hexDigit? a) + 256 * (← hexDigit? b) + 16 * (← hexDigit? c) + (← hexDigit? d)
    return unit :: (← units? rest)
  | '\\' :: c :: rest => do return (← short? c).toNat :: (← units? rest)
  | ['\\'] => none
  | c :: rest => do return c.toNat :: (← units? rest)

def isHighSurrogate (unit : Nat) : Bool := 0xD800 ≤ unit && unit < 0xDC00

def isLowSurrogate (unit : Nat) : Bool := 0xDC00 ≤ unit && unit < 0xE000

/-- The text that code points spell; a high surrogate and the low one after it make one character,
and a surrogate on its own makes none. -/
def chars? : List Nat → Option (List Char)
  | [] => some []
  | [unit] => if isHighSurrogate unit || isLowSurrogate unit then none else some [Char.ofNat unit]
  | unit :: next :: rest =>
    if isHighSurrogate unit then
      if isLowSurrogate next then do
        return Char.ofNat (0x10000 + 0x400 * (unit - 0xD800) + (next - 0xDC00)) :: (← chars? rest)
      else none
    else if isLowSurrogate unit then none
    else do return Char.ofNat unit :: (← chars? (next :: rest))

/-- Reads what stands between two quotes: none if an escape is unknown, and otherwise the text, if
there is one. -/
def read? (literal : List Char) : Option (Option String) :=
  (units? literal).map fun units => (chars? units).map String.ofList

/-- Two lower-case hexadecimal digits. -/
def hexPair (n : Nat) : List Char := [Nat.digitChar (n / 16 % 16), Nat.digitChar (n % 16)]

def writeChar (c : Char) : List Char :=
  match c with
  | '"' => ['\\', '"']
  | '\\' => ['\\', '\\']
  | '\x08' => ['\\', 'b']
  | '\x0c' => ['\\', 'f']
  | '\n' => ['\\', 'n']
  | '\x0d' => ['\\', 'r']
  | '\t' => ['\\', 't']
  | c => if c.toNat < 32 then ['\\', 'u', '0', '0'] ++ hexPair c.toNat else [c]

/-- What stands between the quotes for a text, and for a string without one. -/
def write : Option String → List Char
  | some text => text.toList.flatMap writeChar
  | none => ['\\', 'u', 'd', '8', '0', '0']

end Timetable.Json.Escape
