import Timetable.Json.Parser
import Timetable.Json.Printer
import Timetable.Proofs.JsonScans

/-! Texts of JSON values. What is written for a value, on one line or laid out, is taken apart into the tokens of the
value, and these make the value again. -/

namespace Timetable.Proofs.JsonTexts
open Json JsonScans

inductive Spelled : Json → Prop where
  | null : Spelled .null
  | bool (value : Bool) : Spelled (.bool value)
  | number {numeral : Numeral} : SpelledNumeral numeral → Spelled (.number numeral)
  | string (text : Option String) : Spelled (.string text)
  | array {items : List Json} : (∀ item ∈ items, Spelled item) → Spelled (.array items)
  | object {members : List (Option String × Json)} : (∀ member ∈ members, Spelled member.2) →
      Spelled (.object members)

section Writers

variable {α : Type}

theorem spelled_natural (n : Nat) : Spelled (.ofNat n) := .number (spelled_ofNat n)

theorem spelled_list {write : α → Json} {items : List α} (each : ∀ item ∈ items, Spelled (write item)) :
    Spelled (.ofList write items) := by
  refine .array fun value listed => ?_
  obtain ⟨item, inside, rfl⟩ := List.mem_map.mp listed
  exact each item inside

theorem spelled_record {members : List (String × Json)} (each : ∀ member ∈ members, Spelled member.2) :
    Spelled (.record members) := by
  refine .object fun member listed => ?_
  obtain ⟨own, inside, rfl⟩ := List.mem_map.mp listed
  exact each own inside

end Writers

section Lexing
open Pending

variable {chars : List Char} {found : List Token} {value : Json} {numeral : Numeral} {depth : Nat}

private theorem digit_letter {c : Char} (digit : c.isDigit = true) : isWordChar c = true := by
  rw [isWordChar, Char.isAlphanum, digit, Bool.or_true]
  rfl

private theorem fraction_letters {fraction : Option (List Char)}
    (run : ∀ digits, fraction = some digits → Digits digits) :
    ∀ c ∈ fractionChars fraction, isWordChar c = true := by
  cases fraction with
  | none => exact fun _ none => nomatch none
  | some digits => exact List.forall_mem_cons.mpr ⟨rfl, fun c digit => digit_letter ((run digits rfl).each c digit)⟩

private theorem exponent_letters {exponent : Option Exponent}
    (run : ∀ read, exponent = some read → Digits read.digits) :
    ∀ c ∈ exponentChars exponent, isWordChar c = true := by
  cases exponent with
  | none => exact fun _ none => nomatch none
  | some exponent =>
    have sign : ∀ c ∈ exponent.sign.chars, isWordChar c = true := by
      cases exponent.sign <;> exact List.all_eq_true.mp rfl
    have digits : ∀ c ∈ exponent.digits, isWordChar c = true :=
      fun c digit => digit_letter ((run exponent rfl).each c digit)
    exact List.forall_mem_cons.mpr ⟨rfl, List.forall_mem_append.mpr ⟨sign, digits⟩⟩

private theorem numeral_letters (spelled : SpelledNumeral numeral) : ∀ c ∈ numeral.chars, isWordChar c = true := by
  have sign : ∀ c ∈ (if numeral.negative then ['-'] else []), isWordChar c = true := by
    cases numeral.negative <;> exact List.all_eq_true.mp rfl
  have whole : ∀ c ∈ numeral.whole, isWordChar c = true := fun c digit => digit_letter (spelled.whole.each c digit)
  rw [numeral_chars]
  simp only [List.forall_mem_append]
  exact ⟨sign, whole, fraction_letters spelled.fraction, exponent_letters spelled.exponent⟩

/-- A numeral begins with a sign or a digit, and so is none of the three words. -/
theorem numeral_first (spelled : SpelledNumeral numeral) :
    ∃ first rest, numeral.chars = first :: rest ∧ (first = '-' ∨ first.isDigit = true) := by
  rw [numeral_chars]
  obtain ⟨first, others, whole⟩ := List.exists_cons_of_ne_nil spelled.whole.some
  rw [whole]
  cases numeral.negative with
  | true => exact ⟨'-', _, rfl, .inl rfl⟩
  | false => exact ⟨first, _, rfl, .inr (spelled.whole.each first (by rw [whole]; exact List.mem_cons_self))⟩

private theorem lexes_number (spelled : SpelledNumeral numeral) :
    Lexes (Token.chars (.scalar (.number numeral))) [.scalar (.number numeral)] := by
  obtain ⟨first, rest, chars, sign⟩ := numeral_first spelled
  have word (letter : Char) (letters : List Char) (other : letter ≠ '-' ∧ letter.isDigit = false) :
      numeral.chars ≠ letter :: letters := by
    rw [chars]
    intro same
    obtain rfl := (List.cons.inj same).1
    rcases sign with minus | digit
    · exact other.1 minus
    · rw [other.2] at digit
      cases digit
  apply lexes_word
  · change numeral.chars ≠ []
    rw [chars]
    exact List.cons_ne_nil _ _
  · exact numeral_letters spelled
  · change Token.ofWord? numeral.chars = _
    unfold Token.ofWord?
    rw [if_neg (word _ _ (by decide)), if_neg (word _ _ (by decide)), if_neg (word _ _ (by decide)),
      numeral_read spelled]
    rfl

private theorem lexes_null : Lexes (Token.chars (.scalar .null)) [.scalar .null] :=
  lexes_word (List.cons_ne_nil _ _) (List.all_eq_true.mp rfl) rfl

private theorem lexes_bool (value : Bool) : Lexes (Token.chars (.scalar (.bool value))) [.scalar (.bool value)] := by
  cases value <;> exact lexes_word (List.cons_ne_nil _ _) (List.all_eq_true.mp rfl) rfl

private theorem lexes_blanks (count : Nat) (lexes : Lexes chars found) :
    Lexes (List.replicate count ' ' ++ chars) found := by
  induction count with
  | zero => exact lexes
  | succ count ih => exact ih.blank rfl

private theorem lexes_lineBreak (depth : Nat) (lexes : Lexes chars found) : Lexes (lineBreak depth ++ chars) found :=
  (lexes_blanks (2 * depth) lexes).blank rfl

private theorem endsWord_lineBreak (depth : Nat) (rest : List Char) : EndsWord (lineBreak depth ++ rest) :=
  endsWord_cons rfl

/-- What is common to lists of items and of members: each is followed by a comma and the others. -/
theorem lexes_listed {first others : List Char} {one more : List Token} (lexes : Lexes first one)
    (rest : Lexes others more) : Lexes (first ++ ',' :: others) (one ++ .comma :: more) := by
  have comma : Lexes (',' :: others) (.comma :: more) := rest.sign rfl
  exact lexes.append comma fun _ _ => endsWord_cons rfl

private theorem lexes_layoutItems {items : List Json} (each : ∀ item ∈ items, Lexes (layout depth item) item.tokens) :
    Lexes (layout.layoutItems depth items) (tokens.itemTokens items) := by
  induction items with
  | nil =>
    rw [layout.layoutItems, tokens.itemTokens]
    exact lexes_nil
  | cons item items ih =>
    have first := each item List.mem_cons_self
    cases items with
    | nil =>
      rw [layout.layoutItems, tokens.itemTokens]
      exact lexes_lineBreak depth first
    | cons next items =>
      rw [layout.layoutItems, tokens.itemTokens]
      · have line := lexes_lineBreak depth first
        exact lexes_listed line (ih fun other member => each other (List.mem_cons_of_mem _ member))
      · exact List.cons_ne_nil _ _
      · exact List.cons_ne_nil _ _

private theorem lexes_layoutMember {key : Option String} (lexes : Lexes (layout depth value) value.tokens) :
    Lexes (layout.layoutMember depth key value) (.text key :: .colon :: value.tokens) := by
  rw [layout.layoutMember]
  have blank : Lexes (' ' :: layout depth value) value.tokens := lexes.blank rfl
  have colon : Lexes (':' :: ' ' :: layout depth value) (.colon :: value.tokens) := blank.sign rfl
  exact (lexes_text key).append colon fun _ _ => endsWord_cons rfl

private theorem lexes_layoutMembers {members : List (Option String × Json)}
    (each : ∀ member ∈ members, Lexes (layout depth member.2) member.2.tokens) :
    Lexes (layout.layoutMembers depth members) (tokens.memberTokens members) := by
  induction members with
  | nil =>
    rw [layout.layoutMembers, tokens.memberTokens]
    exact lexes_nil
  | cons member members ih =>
    obtain ⟨key, value⟩ := member
    have first : Lexes (layout.layoutMember depth key value) _ :=
      lexes_layoutMember (each (key, value) List.mem_cons_self)
    cases members with
    | nil =>
      rw [layout.layoutMembers, tokens.memberTokens]
      exact lexes_lineBreak depth first
    | cons next members =>
      rw [layout.layoutMembers, tokens.memberTokens]
      · have line := lexes_lineBreak depth first
        exact lexes_listed line (ih fun other member => each other (List.mem_cons_of_mem _ member))
      · exact List.cons_ne_nil _ _
      · exact List.cons_ne_nil _ _

/-- Entries between brackets, of which the closing one stands on a line of its own. -/
theorem lexes_enclosed {first last : Char} {opening closing : Token} {inner : List Char} {found : List Token}
    (lexes : Lexes inner found) (opens : start? first = some (.nothing, [opening]))
    (closes : start? last = some (.nothing, [closing])) :
    Lexes (first :: inner ++ lineBreak depth ++ [last]) (opening :: found ++ [closing]) := by
  have closed : Lexes (lineBreak depth ++ [last]) [closing] := lexes_lineBreak depth (lexes_nil.sign closes)
  have all := (lexes.append closed fun rest _ => by
    rw [List.append_assoc]
    exact endsWord_lineBreak depth _).sign opens
  rwa [← List.append_assoc] at all

private theorem lexes_layout (spelled : Spelled value) : ∀ depth, Lexes (layout depth value) value.tokens := by
  induction spelled with
  | null =>
    intro depth
    rw [layout, tokens]
    exact lexes_null
  | bool value =>
    intro depth
    rw [layout, tokens]
    exact lexes_bool value
  | number spelled =>
    intro depth
    rw [layout, tokens]
    exact lexes_number spelled
  | string text =>
    intro depth
    rw [layout, tokens]
    exact lexes_text text
  | @array items each ih =>
    intro depth
    cases items with
    | nil =>
      rw [layout, tokens, tokens.itemTokens]
      have closed : Lexes [']'] [.closeArray] := lexes_nil.sign rfl
      exact closed.sign rfl
    | cons item items =>
      rw [layout, tokens]
      exact lexes_enclosed (lexes_layoutItems fun item member => ih item member (depth + 1)) rfl rfl
  | @object members each ih =>
    intro depth
    cases members with
    | nil =>
      rw [layout, tokens, tokens.memberTokens]
      have closed : Lexes ['\x7d'] [.closeObject] := lexes_nil.sign rfl
      exact closed.sign rfl
    | cons member members =>
      rw [layout, tokens]
      exact lexes_enclosed (lexes_layoutMembers fun member listed => ih member listed (depth + 1)) rfl rfl

private theorem lexes_items {items : List Json}
    (each : ∀ item ∈ items, Lexes (item.tokens.flatMap Token.chars) item.tokens) :
    Lexes ((tokens.itemTokens items).flatMap Token.chars) (tokens.itemTokens items) := by
  induction items with
  | nil =>
    rw [tokens.itemTokens]
    exact lexes_nil
  | cons item items ih =>
    have first := each item List.mem_cons_self
    cases items with
    | nil =>
      rw [tokens.itemTokens]
      exact first
    | cons next items =>
      rw [tokens.itemTokens, List.flatMap_append]
      · exact lexes_listed first (ih fun other member => each other (List.mem_cons_of_mem _ member))
      · exact List.cons_ne_nil _ _

private theorem lexes_member (key : Option String) (lexes : Lexes (value.tokens.flatMap Token.chars) value.tokens) :
    Lexes ((.text key :: .colon :: value.tokens : List Token).flatMap Token.chars)
      (.text key :: .colon :: value.tokens) := by
  have colon : Lexes (':' :: value.tokens.flatMap Token.chars) (.colon :: value.tokens) := lexes.sign rfl
  exact (lexes_text key).append colon fun _ _ => endsWord_cons rfl

private theorem lexes_members {members : List (Option String × Json)}
    (each : ∀ member ∈ members, Lexes (member.2.tokens.flatMap Token.chars) member.2.tokens) :
    Lexes ((tokens.memberTokens members).flatMap Token.chars) (tokens.memberTokens members) := by
  induction members with
  | nil =>
    rw [tokens.memberTokens]
    exact lexes_nil
  | cons member members ih =>
    obtain ⟨key, value⟩ := member
    have first := lexes_member key (each (key, value) List.mem_cons_self)
    cases members with
    | nil =>
      rw [tokens.memberTokens]
      exact first
    | cons next members =>
      rw [tokens.memberTokens, List.flatMap_append]
      · exact lexes_listed first (ih fun other member => each other (List.mem_cons_of_mem _ member))
      · exact List.cons_ne_nil _ _

/-- Entries between brackets, all on one line. -/
theorem lexes_bracketed {first last : Char} {opening closing : Token} {inner : List Char} {found : List Token}
    (lexes : Lexes inner found) (opens : start? first = some (.nothing, [opening]))
    (closes : start? last = some (.nothing, [closing])) (apart : isWordChar last = false) :
    Lexes (first :: (inner ++ [last])) (opening :: (found ++ [closing])) := by
  have closed : Lexes [last] [closing] := lexes_nil.sign closes
  exact (lexes.append closed fun _ _ => endsWord_cons apart).sign opens

private theorem lexes_compact (spelled : Spelled value) : Lexes (value.tokens.flatMap Token.chars) value.tokens := by
  induction spelled with
  | null =>
    rw [tokens]
    exact lexes_null
  | bool value =>
    rw [tokens, List.flatMap_singleton]
    exact lexes_bool value
  | number spelled =>
    rw [tokens, List.flatMap_singleton]
    exact lexes_number spelled
  | string text =>
    rw [tokens, List.flatMap_singleton]
    exact lexes_text text
  | array _ ih =>
    rw [tokens, List.cons_append, List.flatMap_cons, List.flatMap_append]
    exact lexes_bracketed (lexes_items ih) rfl rfl rfl
  | object _ ih =>
    rw [tokens, List.cons_append, List.flatMap_cons, List.flatMap_append]
    exact lexes_bracketed (lexes_members ih) rfl rfl rfl

private theorem tokens_of_lexes (lexes : Lexes chars found) : Json.tokens? (String.ofList chars) = some found := by
  have all := lexes [] [] endsWord_nil
  rw [List.append_nil, List.append_nil] at all
  unfold Json.tokens?
  rw [String.toList_ofList, all, scan?, finish?, Option.map_some, List.reverse_reverse, List.append_nil]

end Lexing

section Parsing
open Progress

variable {value : Json} {progress : Progress} {outer : List Frame}

def Awaits (progress : Progress) (outer : List Frame) : Prop :=
  ∀ token, token ≠ .closeArray → progress.step? token = beginValue? outer token

/-- Its tokens complete a value wherever one may begin. -/
def Completes (value : Json) : Prop := ∀ progress outer rest, Awaits progress outer →
  run? progress (value.tokens ++ rest) = run? (.ended value outer) rest

private theorem awaits_value (outer : List Frame) : Awaits (.needsValue outer) outer := fun _ _ => rfl

private theorem awaits_item (outer : List Frame) : Awaits (.needsItem outer) (.array [] :: outer) := by
  intro token other
  cases token <;> first | rfl | exact absurd rfl other

private theorem run_cons {token : Token} {next : Progress} (step : progress.step? token = some next)
    (rest : List Token) :
    run? progress (token :: rest) = run? next rest := by
  rw [run?, step]

private theorem run_items {items : List Json} (each : ∀ item ∈ items, Completes item) (some : items ≠ [])
    (reversed : List Json) (progress : Progress) (rest : List Token)
    (awaits : Awaits progress (.array reversed :: outer)) :
    run? progress (tokens.itemTokens items ++ .closeArray :: rest) =
      run? (.ended (.array (reversed.reverse ++ items)) outer) rest := by
  induction items generalizing reversed progress with
  | nil => exact absurd rfl some
  | cons item items ih =>
    have first := each item List.mem_cons_self
    cases items with
    | nil =>
      rw [tokens.itemTokens, first _ _ _ awaits]
      rw [run_cons rfl, List.reverse_cons]
    | cons next items =>
      rw [tokens.itemTokens, List.append_assoc, first _ _ _ awaits, List.cons_append]
      · rw [run_cons rfl]
        have others := ih (fun other member => each other (List.mem_cons_of_mem _ member)) (List.cons_ne_nil _ _)
        rw [others (item :: reversed) _ (awaits_value _), List.reverse_cons, List.append_assoc]
        rfl
      · exact List.cons_ne_nil _ _

private theorem run_members {members : List (Option String × Json)} (each : ∀ member ∈ members, Completes member.2)
    (some : members ≠ []) (reversed : List (Option String × Json)) (progress : Progress) (rest : List Token)
    (awaits : ∀ key, progress.step? (.text key) = .some (.needsColon reversed key outer)) :
    run? progress (tokens.memberTokens members ++ .closeObject :: rest) =
      run? (.ended (.object (reversed.reverse ++ members)) outer) rest := by
  induction members generalizing reversed progress with
  | nil => exact absurd rfl some
  | cons member members ih =>
    obtain ⟨key, value⟩ := member
    have first (rest : List Token) : run? progress (.text key :: .colon :: (value.tokens ++ rest)) =
        run? (.ended value (.object reversed key :: outer)) rest := by
      rw [run_cons (awaits key), run_cons rfl]
      exact each (key, value) List.mem_cons_self _ _ _ (awaits_value _)
    cases members with
    | nil =>
      rw [tokens.memberTokens, List.cons_append, List.cons_append, first]
      rw [run_cons rfl, List.reverse_cons]
    | cons next members =>
      rw [tokens.memberTokens, List.append_assoc, List.cons_append, List.cons_append, first, List.cons_append]
      · rw [run_cons rfl]
        have others := ih (fun other member => each other (List.mem_cons_of_mem _ member)) (List.cons_ne_nil _ _)
        rw [others ((key, value) :: reversed) _ fun _ => rfl, List.reverse_cons, List.append_assoc]
        rfl
      · exact List.cons_ne_nil _ _

private theorem completes (spelled : Spelled value) : Completes value := by
  induction spelled with
  | null | bool | number | string =>
    intro progress outer rest awaits
    rw [tokens, List.singleton_append]
    exact run_cons (awaits _ Token.noConfusion) rest
  | @array items _ ih =>
    intro progress outer rest awaits
    rw [tokens, List.cons_append, List.cons_append, List.append_assoc, run_cons (awaits _ Token.noConfusion)]
    by_cases some : items = []
    · rw [some, tokens.itemTokens]
      exact run_cons rfl rest
    · exact run_items ih some [] _ rest (awaits_item _)
  | @object members _ ih =>
    intro progress outer rest awaits
    rw [tokens, List.cons_append, List.cons_append, List.append_assoc, run_cons (awaits _ Token.noConfusion)]
    by_cases some : members = []
    · rw [some, tokens.memberTokens]
      exact run_cons rfl rest
    · exact run_members ih some [] _ rest fun _ => rfl

private theorem ofTokens_tokens (spelled : Spelled value) : ofTokens? value.tokens = some value := by
  have all := completes spelled (.needsValue []) [] [] (awaits_value [])
  rw [List.append_nil] at all
  unfold ofTokens?
  rw [all]
  rfl

/-- What is laid out for a value is parsed as the value. -/
theorem parse_pretty (spelled : Spelled value) : parse? value.pretty = some value := by
  have lexed := tokens_of_lexes (lexes_layout spelled 0)
  unfold parse? pretty
  rw [lexed]
  exact ofTokens_tokens spelled

/-- What is written on one line for a value is parsed as the value. -/
theorem parse_compact (spelled : Spelled value) : parse? value.compact = some value := by
  have lexed := tokens_of_lexes (lexes_compact spelled)
  unfold parse? compact
  rw [lexed]
  exact ofTokens_tokens spelled

end Parsing

end Timetable.Proofs.JsonTexts
