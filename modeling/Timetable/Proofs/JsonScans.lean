import Timetable.Json.Token
import Mathlib.Data.List.TakeDrop

/-! Characters of JSON texts. Strings, numerals and words are read as they were written, whatever stands behind them
that does not make them longer. -/

namespace Timetable.Proofs.JsonScans
open Json

section Escapes
open Escape

private theorem hexDigit_digitChar : ∀ n < 16, hexDigit? (Nat.digitChar n) = some n := by
  decide

private theorem units_control {n : Nat} (control : n < 32) (rest : List Char) :
    units? (['\\', 'u', '0', '0'] ++ hexPair n ++ rest) = (units? rest).map (n :: ·) := by
  have high := hexDigit_digitChar (n / 16 % 16) (Nat.mod_lt _ (by decide))
  have low := hexDigit_digitChar (n % 16) (Nat.mod_lt _ (by decide))
  have zero : hexDigit? '0' = some 0 := rfl
  have whole : 4096 * 0 + 256 * 0 + 16 * (n / 16 % 16) + n % 16 = n := by omega
  simp only [hexPair, List.cons_append, List.nil_append, units?, high, low, zero, Option.bind_eq_bind,
    Option.bind_some, whole]
  cases units? rest <;> rfl

private theorem units_plain {c : Char} (other : c ≠ '\\') (rest : List Char) :
    units? (c :: rest) = (units? rest).map (c.toNat :: ·) := by
  rw [units?.eq_def]
  split <;> rename_i same
  · cases same
  · cases same
    exact absurd rfl other
  · cases same
    exact absurd rfl other
  · cases same
    exact absurd rfl other
  · cases same
    cases units? rest <;> rfl

private theorem units_short {c sign : Char} (known : short? c = some sign) (other : c ≠ 'u') (rest : List Char) :
    units? ('\\' :: c :: rest) = (units? rest).map (sign.toNat :: ·) := by
  rw [units?.eq_def]
  split <;> rename_i same
  · cases same
  · cases same
    exact absurd rfl other
  · cases same
    rw [known]
    cases units? rest <;> rfl
  · cases same
  · rename_i pair _
    cases same
    exact (pair c rest rfl rfl).elim

private theorem units_writeChar (c : Char) (rest : List Char) :
    units? (writeChar c ++ rest) = (units? rest).map (c.toNat :: ·) := by
  unfold writeChar
  split
  case h_8 quote backslash _ _ _ _ _ =>
    split
    next control => exact units_control control rest
    next => exact units_plain backslash rest
  all_goals exact units_short rfl (by decide) rest

private theorem units_write (chars : List Char) : units? (chars.flatMap writeChar) = some (chars.map Char.toNat) := by
  induction chars with
  | nil => rfl
  | cons c rest ih => rw [List.flatMap_cons, units_writeChar, ih, List.map_cons, Option.map_some]

private theorem no_surrogate (c : Char) : isHighSurrogate c.toNat = false ∧ isLowSurrogate c.toNat = false := by
  have valid : c.toNat < 0xD800 ∨ 0xDFFF < c.toNat ∧ c.toNat < 0x110000 := c.valid
  simp only [isHighSurrogate, isLowSurrogate, Bool.and_eq_false_iff, decide_eq_false_iff_not]
  omega

private theorem chars_toNat (chars : List Char) : chars? (chars.map Char.toNat) = some chars := by
  induction chars with
  | nil => rfl
  | cons c rest ih =>
    obtain ⟨high, low⟩ := no_surrogate c
    cases rest with
    | nil => rw [List.map_singleton, chars?, high, low, Char.ofNat_toNat]; rfl
    | cons next rest =>
      rw [List.map_cons] at ih
      rw [List.map_cons, List.map_cons, chars?, high, low, ih, Char.ofNat_toNat]
      rfl

/-- A string is read as it was written, with or without a text. -/
theorem read_write (string : Option String) : read? (write string) = some string := by
  cases string with
  | none => decide
  | some text =>
    unfold write read?
    rw [units_write, Option.map_some, chars_toNat]
    simp only [Option.map_some, String.ofList_toList]

end Escapes

section Numerals
open Numeral

structure Digits (chars : List Char) : Prop where
  some : chars ≠ []
  each : ∀ c ∈ chars, c.isDigit = true

structure SpelledNumeral (numeral : Numeral) : Prop where
  whole : Digits numeral.whole
  leading : ∀ rest, numeral.whole = '0' :: rest → rest = []
  fraction : ∀ digits, numeral.fraction = some digits → Digits digits
  exponent : ∀ exponent, numeral.exponent = some exponent → Digits exponent.digits

def EndsDigits (rest : List Char) : Prop := ∀ c tail, rest = c :: tail → c.isDigit = false

variable {digits rest : List Char} {numeral : Numeral}

private theorem endsDigits_nil : EndsDigits [] := fun _ _ same => nomatch same

private theorem endsDigits_cons {c : Char} (other : c.isDigit = false) : EndsDigits (c :: rest) :=
  fun _ _ same => (List.cons.inj same).1 ▸ other

private theorem spanDigits_append (run : Digits digits) (ends : EndsDigits rest) :
    spanDigits (digits ++ rest) = (digits, rest) := by
  unfold spanDigits
  rw [List.span_eq_takeWhile_dropWhile, List.takeWhile_append_of_pos run.each, List.dropWhile_append_of_pos run.each]
  cases rest with
  | nil => simp
  | cons c tail =>
    have other := ends c tail rfl
    simp [other]

private theorem whole_append (run : Digits digits) (leading : ∀ rest, digits = '0' :: rest → rest = [])
    (ends : EndsDigits rest) : whole? (digits ++ rest) = some (digits, rest) := by
  unfold whole?
  rw [spanDigits_append run ends]
  split <;> rename_i same
  · cases same
    exact absurd rfl run.some
  · cases same
    rfl
  · rename_i more
    cases same
    obtain rfl := leading _ rfl
    exact (more rfl).elim
  · cases same
    rfl

def fractionChars : Option (List Char) → List Char
  | none => []
  | some digits => '.' :: digits

def exponentChars : Option Exponent → List Char
  | none => []
  | some exponent => 'e' :: exponent.sign.chars ++ exponent.digits

theorem numeral_chars (numeral : Numeral) : numeral.chars =
    (if numeral.negative then ['-'] else []) ++ (numeral.whole ++ (fractionChars numeral.fraction ++
      exponentChars numeral.exponent)) := by
  obtain ⟨negative, whole, fraction, exponent⟩ := numeral
  cases fraction <;> cases exponent <;> simp [Numeral.chars, fractionChars, exponentChars]

private theorem ends_exponent (exponent : Option Exponent) : EndsDigits (exponentChars exponent) := by
  cases exponent with
  | none => exact endsDigits_nil
  | some => exact endsDigits_cons rfl

private theorem fraction_append (fraction : Option (List Char)) (run : ∀ digits, fraction = some digits → Digits digits)
    (exponent : Option Exponent) :
    fraction? (fractionChars fraction ++ exponentChars exponent) = some (fraction, exponentChars exponent) := by
  cases fraction with
  | none => cases exponent <;> rfl
  | some digits =>
    have run := run digits rfl
    unfold fraction? fractionChars
    rw [List.cons_append]
    simp only [spanDigits_append run (ends_exponent exponent)]
    split <;> rename_i same
    · cases same
      exact absurd rfl run.some
    · cases same
      rfl

private theorem exponent_read (exponent : Option Exponent) (run : ∀ read, exponent = some read → Digits read.digits) :
    exponent? (exponentChars exponent) = some exponent := by
  cases exponent with
  | none => rfl
  | some exponent =>
    obtain ⟨sign, digits⟩ := exponent
    have run : Digits digits := run _ rfl
    have span : spanDigits digits = (digits, []) := by
      simpa using spanDigits_append run endsDigits_nil
    obtain ⟨first, others, rfl⟩ := List.exists_cons_of_ne_nil run.some
    have digit := run.each first List.mem_cons_self
    unfold exponent? exponentChars
    cases sign with
    | unsigned =>
      have positive : first ≠ '+' := by rintro rfl; cases digit
      have negative : first ≠ '-' := by rintro rfl; cases digit
      simp [ExponentSign.chars, span, positive, negative]
    | plus => simp [ExponentSign.chars, span]
    | minus => simp [ExponentSign.chars, span]

theorem numeral_read (spelled : SpelledNumeral numeral) : ofChars? numeral.chars = some numeral := by
  rw [numeral_chars]
  obtain ⟨negative, whole, fraction, exponent⟩ := numeral
  have ends : EndsDigits (fractionChars fraction ++ exponentChars exponent) := by
    cases fraction with
    | none => exact ends_exponent exponent
    | some => exact endsDigits_cons rfl
  have parts := whole_append spelled.whole spelled.leading ends
  have rest := fraction_append fraction spelled.fraction exponent
  have last := exponent_read exponent spelled.exponent
  unfold ofChars?
  cases negative with
  | true => simp [parts, rest, last]
  | false =>
    obtain ⟨first, others, rfl⟩ := List.exists_cons_of_ne_nil spelled.whole.some
    have digit := spelled.whole.each first List.mem_cons_self
    have positive : first ≠ '-' := by rintro rfl; cases digit
    simp only [List.cons_append] at parts
    simp [parts, rest, last, positive]

/-- Only zero is written with a zero in front. -/
theorem toDigits_leading (n : Nat) : ∀ rest, Nat.toDigits 10 n = '0' :: rest → rest = [] := by
  induction n using Nat.strongRecOn with
  | ind n ih =>
    intro rest written
    rcases Nat.lt_or_ge n 10 with small | large
    · rw [Nat.toDigits_of_lt_base small] at written
      exact (List.cons.inj written).2.symm
    · rw [Nat.toDigits_of_base_le (by decide) large] at written
      have front : ∃ others, Nat.toDigits 10 (n / 10) = '0' :: others := by
        obtain ⟨first, others, digits⟩ := List.exists_cons_of_ne_nil (@Nat.toDigits_ne_nil (n / 10) 10)
        rw [digits, List.cons_append] at written
        exact ⟨others, (List.cons.inj written).1 ▸ digits⟩
      obtain ⟨others, digits⟩ := front
      obtain rfl := ih (n / 10) (by omega) others digits
      have value := @Nat.ofDigitChars_ten_toDigits (n / 10)
      rw [digits] at value
      have zero : 0 = n / 10 := value
      omega

theorem spelled_ofNat (n : Nat) : SpelledNumeral (.ofNat n) where
  whole := ⟨Nat.toDigits_ne_nil, fun _ => Nat.isDigit_of_mem_toDigits (by decide) (by decide)⟩
  leading := toDigits_leading n
  fraction := fun _ none => nomatch none
  exponent := fun _ none => nomatch none

theorem digitsValue_toDigits (n : Nat) : digitsValue (Nat.toDigits 10 n) = n :=
  Nat.ofDigitChars_eq_foldl.symm.trans Nat.ofDigitChars_ten_toDigits

theorem toDigits_positive {n : Nat} (positive : 0 < n) :
    ∃ first others, Nat.toDigits 10 n = first :: others ∧ first ≠ '0' := by
  obtain ⟨first, others, digits⟩ := List.exists_cons_of_ne_nil (@Nat.toDigits_ne_nil n 10)
  refine ⟨first, others, digits, ?_⟩
  rintro rfl
  obtain rfl := toDigits_leading n others digits
  have value := digitsValue_toDigits n
  rw [digits] at value
  exact Nat.ne_of_lt positive value

theorem nat_ofNat (n : Nat) : (Numeral.ofNat n).nat? = some n := congrArg some (digitsValue_toDigits n)

end Numerals

section Scans
open Pending

variable {c : Char} {chars others : List Char} {found more : List Token}

/-- What may follow a word without making it longer. -/
def EndsWord (rest : List Char) : Prop := ∀ c tail, rest = c :: tail → isWordChar c = false

/-- Characters that spell tokens, whatever stands behind them that is no part of a word. -/
def Lexes (chars : List Char) (found : List Token) : Prop :=
  ∀ reversed rest, EndsWord rest →
    scan? .nothing reversed (chars ++ rest) = scan? .nothing (found.reverse ++ reversed) rest

theorem endsWord_nil : EndsWord [] := fun _ _ same => nomatch same

theorem endsWord_cons {rest : List Char} (other : isWordChar c = false) : EndsWord (c :: rest) :=
  fun _ _ same => (List.cons.inj same).1 ▸ other

theorem lexes_nil : Lexes [] [] := fun _ _ _ => rfl

/-- Blanks and the characters that are tokens by themselves may stand in front of anything. -/
theorem Lexes.cons (alone : start? c = some (.nothing, more)) (lexes : Lexes chars found) :
    Lexes (c :: chars) (more ++ found) := by
  intro reversed rest ends
  rw [List.cons_append, scan?]
  have step : next? .nothing c = some (.nothing, more) := alone
  rw [step]
  dsimp only
  rw [lexes _ rest ends, List.reverse_append, List.append_assoc]

theorem Lexes.blank (lexes : Lexes chars found) (alone : start? c = some (.nothing, [])) : Lexes (c :: chars) found :=
  Lexes.cons alone lexes

theorem Lexes.sign {token : Token} (lexes : Lexes chars found) (alone : start? c = some (.nothing, [token])) :
    Lexes (c :: chars) (token :: found) :=
  Lexes.cons alone lexes

theorem Lexes.append (first : Lexes chars found) (second : Lexes others more)
    (apart : ∀ rest, EndsWord rest → EndsWord (others ++ rest)) : Lexes (chars ++ others) (found ++ more) := by
  intro reversed rest ends
  rw [List.append_assoc, first _ _ (apart rest ends), second _ rest ends, List.reverse_append, List.append_assoc]

private theorem start_word (letter : isWordChar c = true) : start? c = some (.word [c], []) := by
  have inked : ¬Pending.isBlank c = true := by
    intro blank
    simp only [Pending.isBlank, Bool.or_eq_true, decide_eq_true_eq, or_assoc] at blank
    rcases blank with rfl | rfl | rfl | rfl <;> cases letter
  unfold start?
  rw [if_neg inked, if_pos letter]

private theorem scan_word (begun : List Char) (letters : ∀ c ∈ chars, isWordChar c = true) (reversed : List Token)
    (rest : List Char) :
    scan? (.word begun) reversed (chars ++ rest) = scan? (.word (chars.reverse ++ begun)) reversed rest := by
  induction chars generalizing begun with
  | nil => rfl
  | cons c others ih =>
    have step : next? (.word begun) c = some (.word (c :: begun), []) := if_pos (letters c List.mem_cons_self)
    rw [List.cons_append, scan?, step]
    dsimp only
    rw [List.reverse_nil, List.nil_append, ih _ fun c inside => letters c (List.mem_cons_of_mem _ inside)]
    rw [List.reverse_cons, List.append_assoc]
    rfl

theorem lexes_word {token : Token} (nonempty : chars ≠ []) (letters : ∀ c ∈ chars, isWordChar c = true)
    (spelled : Token.ofWord? chars = some token) : Lexes chars [token] := by
  obtain ⟨first, others, rfl⟩ := List.exists_cons_of_ne_nil nonempty
  intro reversed rest ends
  have begun : next? .nothing first = some (.word [first], []) := start_word (letters first List.mem_cons_self)
  rw [List.cons_append, scan?, begun]
  dsimp only
  rw [List.reverse_nil, List.nil_append, scan_word _ fun c inside => letters c (List.mem_cons_of_mem _ inside)]
  have word : (others.reverse ++ [first]).reverse = first :: others := by simp
  cases rest with
  | nil => simp [scan?, finish?, word, spelled]
  | cons c tail =>
    have ended : next? (.word (others.reverse ++ [first])) c =
        (next? .nothing c).map fun step => (step.1, token :: step.2) := by
      unfold next?
      dsimp only
      rw [if_neg (Bool.eq_false_iff.mp (ends c tail rfl)), word, spelled]
      cases start? c <;> rfl
    rw [scan?, scan?, ended]
    cases next? .nothing c with
    | none => rfl
    | some step => simp

private theorem scan_plain (quote : c ≠ '"') (backslash : c ≠ '\\') (plain : 32 ≤ c.toNat) (reversed : List Token)
    (begun rest : List Char) :
    scan? (.text begun) reversed (c :: rest) = scan? (.text (c :: begun)) reversed rest := by
  have step : next? (.text begun) c = some (.text (c :: begun), []) := by
    unfold next?
    dsimp only
    rw [if_neg quote, if_neg backslash, if_neg (Nat.not_lt.mpr plain)]
  rw [scan?, step]
  rfl

private theorem digitChar_plain :
    ∀ n < 16, Nat.digitChar n ≠ '"' ∧ Nat.digitChar n ≠ '\\' ∧ 32 ≤ (Nat.digitChar n).toNat := by
  decide

private theorem scan_hexPair (n : Nat) (reversed : List Token) (begun rest : List Char) :
    scan? (.text begun) reversed (Escape.hexPair n ++ rest) =
      scan? (.text ((Escape.hexPair n).reverse ++ begun)) reversed rest := by
  obtain ⟨quote, backslash, plain⟩ := digitChar_plain (n / 16 % 16) (Nat.mod_lt _ (by decide))
  obtain ⟨quote', backslash', plain'⟩ := digitChar_plain (n % 16) (Nat.mod_lt _ (by decide))
  unfold Escape.hexPair
  rw [List.cons_append, scan_plain quote backslash plain, List.cons_append, scan_plain quote' backslash' plain']
  rfl

private theorem scan_writeChar (reversed : List Token) (begun rest : List Char) :
    scan? (.text begun) reversed (Escape.writeChar c ++ rest) =
      scan? (.text ((Escape.writeChar c).reverse ++ begun)) reversed rest := by
  unfold Escape.writeChar
  split
  case h_8 quote backslash _ _ _ _ _ =>
    split
    next => exact scan_hexPair c.toNat reversed (['0', '0', 'u', '\\'] ++ begun) rest
    next plain => exact scan_plain quote backslash (Nat.le_of_not_lt plain) reversed begun rest
  all_goals rfl

private theorem scan_write (texts : List Char) (reversed : List Token) (begun rest : List Char) :
    scan? (.text begun) reversed (texts.flatMap Escape.writeChar ++ rest) =
      scan? (.text ((texts.flatMap Escape.writeChar).reverse ++ begun)) reversed rest := by
  induction texts generalizing begun with
  | nil => rfl
  | cons c texts ih =>
    rw [List.flatMap_cons, List.append_assoc, scan_writeChar, ih, List.reverse_append, List.append_assoc]

theorem lexes_text (string : Option String) : Lexes (Token.chars (.text string)) [.text string] := by
  intro reversed rest _
  have written : ∀ begun, scan? (.text begun) reversed (Escape.write string ++ '"' :: rest) =
      scan? (.text ((Escape.write string).reverse ++ begun)) reversed ('"' :: rest) := by
    intro begun
    cases string with
    | none => rfl
    | some text => exact scan_write text.toList reversed begun _
  have closed : next? (.text ((Escape.write string).reverse ++ [])) '"' = some (.nothing, [.text string]) := by
    unfold next?
    dsimp only
    rw [if_pos rfl, List.append_nil, List.reverse_reverse, read_write]
    rfl
  have whole : Token.chars (.text string) ++ rest = '"' :: (Escape.write string ++ '"' :: rest) := by
    simp [Token.chars]
  rw [whole, scan?]
  change scan? (.text []) ([] ++ reversed) _ = _
  rw [List.nil_append, written, scan?, closed]

end Scans

end Timetable.Proofs.JsonScans
