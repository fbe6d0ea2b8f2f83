import Timetable.Random.Source

/-!
The ChaCha stream with eight rounds. A seed of 64 bits is stretched to a key, and streams of one key
are told apart by a number.
-/

namespace Timetable

namespace ChaCha

/-- Four words side by side. -/
structure Row where
  a : UInt32
  b : UInt32
  c : UInt32
  d : UInt32
deriving DecidableEq, Repr

namespace Row

@[inline] def zipWith (f : UInt32 → UInt32 → UInt32) (x y : Row) : Row :=
  ⟨f x.a y.a, f x.b y.b, f x.c y.c, f x.d y.d⟩

@[inline] def map (f : UInt32 → UInt32) (x : Row) : Row := ⟨f x.a, f x.b, f x.c, f x.d⟩

/-- Every word moves one place to the left, and the first one to the end. -/
@[inline] def rotated (x : Row) : Row := ⟨x.b, x.c, x.d, x.a⟩

def toList (x : Row) : List UInt32 := [x.a, x.b, x.c, x.d]

end Row

/-- Sixteen words in four rows. -/
structure Block where
  first : Row
  second : Row
  third : Row
  fourth : Row
deriving DecidableEq, Repr

namespace Block

@[inline] def zipWith (f : UInt32 → UInt32 → UInt32) (x y : Block) : Block :=
  ⟨x.first.zipWith f y.first, x.second.zipWith f y.second, x.third.zipWith f y.third,
    x.fourth.zipWith f y.fourth⟩

def toList (block : Block) : List UInt32 :=
  block.first.toList ++ block.second.toList ++ block.third.toList ++ block.fourth.toList

end Block

end ChaCha

structure ChaCha where
  /-- The two rows of a block that hold the key. -/
  key : ChaCha.Row × ChaCha.Row
  stream : UInt64
  /-- The number of the next block. -/
  counter : UInt64
  /-- Words of the current block that have not been drawn. -/
  pending : List UInt32

namespace ChaCha

@[inline] def rotateLeft (amount x : UInt32) : UInt32 := (x <<< amount) ||| (x >>> (32 - amount))

@[inline] def rotateRight (amount x : UInt32) : UInt32 := (x >>> amount) ||| (x <<< (32 - amount))

/-- Mixes the words of each column. -/
@[inline] def mixColumns (block : Block) : Block :=
  let ⟨x, y, z, w⟩ := block
  let x := x.zipWith (· + ·) y
  let w := (w.zipWith (· ^^^ ·) x).map (rotateLeft 16)
  let z := z.zipWith (· + ·) w
  let y := (y.zipWith (· ^^^ ·) z).map (rotateLeft 12)
  let x := x.zipWith (· + ·) y
  let w := (w.zipWith (· ^^^ ·) x).map (rotateLeft 8)
  let z := z.zipWith (· + ·) w
  let y := (y.zipWith (· ^^^ ·) z).map (rotateLeft 7)
  ⟨x, y, z, w⟩

/-- Turns each row so that diagonals stand in columns. -/
@[inline] def slanted (block : Block) : Block :=
  ⟨block.first, block.second.rotated, block.third.rotated.rotated,
    block.fourth.rotated.rotated.rotated⟩

/-- Turns each row back. -/
@[inline] def straightened (block : Block) : Block :=
  ⟨block.first, block.second.rotated.rotated.rotated, block.third.rotated.rotated,
    block.fourth.rotated⟩

/-- The four columns, then the four diagonals. -/
def doubleRound (block : Block) : Block := straightened (mixColumns (slanted (mixColumns block)))

def low (x : UInt64) : UInt32 := x.toUInt32

def high (x : UInt64) : UInt32 := (x >>> 32).toUInt32

/-- Constants, key, block number and stream number. -/
def initial (key : Row × Row) (counter stream : UInt64) : Block :=
  ⟨⟨0x61707865, 0x3320646e, 0x79622d32, 0x6b206574⟩, key.1, key.2,
    ⟨low counter, high counter, low stream, high stream⟩⟩

def block (key : Row × Row) (counter stream : UInt64) : Block :=
  let start := initial key counter stream
  (doubleRound (doubleRound (doubleRound (doubleRound start)))).zipWith (· + ·) start

/-- One step of the generator that stretches a seed, and the word read off the state after it. -/
def stretch (state : UInt64) : UInt32 × UInt64 :=
  let state := state * 6364136223846793005 + 11634580027462260723
  let mixed := low (((state >>> 18) ^^^ state) >>> 27)
  (rotateRight (low (state >>> 59)) mixed, state)

/-- A row of stretched words. -/
def stretchRow (state : UInt64) : Row × UInt64 :=
  let (a, state) := stretch state
  let (b, state) := stretch state
  let (c, state) := stretch state
  let (d, state) := stretch state
  (⟨a, b, c, d⟩, state)

/-- The key of a seed. -/
def keyOf (seed : UInt64) : Row × Row :=
  let (first, state) := stretchRow seed
  (first, (stretchRow state).1)

def ofSeed (seed stream : UInt64) : ChaCha := ⟨keyOf seed, stream, 0, []⟩

def next32 (source : ChaCha) : UInt32 × ChaCha :=
  match source.pending with
  | word :: rest => (word, { source with pending := rest })
  | [] =>
    let words := block source.key source.counter source.stream
    (words.first.a,
      { source with counter := source.counter + 1, pending := words.toList.drop 1 })

/-- Two words, the low half first. -/
def next64 (source : ChaCha) : UInt64 × ChaCha :=
  let (first, source) := source.next32
  let (second, source) := source.next32
  (first.toUInt64 ||| (second.toUInt64 <<< 32), source)

instance : RandomSource ChaCha where
  word32 := next32
  word64 := next64

end ChaCha

end Timetable
