/-!
Sources of random words. A source is a value: drawing yields a word and the source that goes on.
-/

namespace Timetable

class RandomSource (σ : Type) where
  word32 : σ → UInt32 × σ
  word64 : σ → UInt64 × σ

/-- Words known beforehand, one for every draw, and after them the multiples of a fixed odd number
by the count of draws. -/
structure WordList where
  words : List UInt64
  drawn : Nat

namespace WordList

def ofList (words : List UInt64) : WordList := ⟨words, 0⟩

def stride : UInt64 := 0x9E3779B97F4A7C15

def next (source : WordList) : UInt64 × WordList :=
  match source.words with
  | word :: rest => (word, ⟨rest, source.drawn + 1⟩)
  | [] => ((source.drawn + 1).toUInt64 * stride, ⟨[], source.drawn + 1⟩)

instance : RandomSource WordList where
  word32 source := let (word, after) := source.next; (word.toUInt32, after)
  word64 := next

end WordList

end Timetable
