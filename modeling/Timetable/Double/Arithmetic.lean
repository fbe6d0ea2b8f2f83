import Timetable.Double.Basic

/-!
Arithmetic of doubles. Results are rounded to nearest, and patterns that stand for no number are
carried along: an operation hands on the first such operand, and answers one pattern of its own where
numbers have no result.
-/

namespace Timetable.Double

/-- The machine's number; it does not keep the pattern of what is no number. -/
@[inline] def toFloat (x : Double) : Float := Float.ofBits x.bits

@[inline] def ofFloat (x : Float) : Double := ⟨x.toBits⟩

/-- The result of numbers that have none, such as the difference of two infinities. -/
def indefinite : Double := ⟨0xfff8000000000000⟩

/-- The pattern as an operation hands it on: the first bit of the fraction is set. -/
def quiet (x : Double) : Double := ⟨x.bits ||| 0x0008000000000000⟩

@[inline] def ofResult (result : Float) : Double :=
  let x := ofFloat result
  if x.isNaN then indefinite else x

@[inline] def combine (operation : Float → Float → Float) (x y : Double) : Double :=
  if x.isNaN then x.quiet
  else if y.isNaN then y.quiet
  else ofResult (operation x.toFloat y.toFloat)

instance : Add Double := ⟨combine (· + ·)⟩

instance : Sub Double := ⟨combine (· - ·)⟩

instance : Mul Double := ⟨combine (· * ·)⟩

instance : Div Double := ⟨combine (· / ·)⟩

/-- A power; only its numbers matter. -/
def pow (x y : Double) : Double := ofFloat (Float.pow x.toFloat y.toFloat)

/-- The nearest double. Numbers of one machine word have an operation of their own. -/
def ofNat (n : Nat) : Double :=
  if n < UInt64.size then ofFloat n.toUInt64.toFloat else ofFloat (Float.ofNat n)

/-- The sum of a list, added up from zero in its order. -/
def sum (xs : List Double) : Double := xs.foldl (· + ·) 0

instance : OfScientific Double :=
  ⟨fun mantissa negative exponent => ofFloat (Float.ofScientific mantissa negative exponent)⟩

end Timetable.Double
