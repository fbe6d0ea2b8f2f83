/-!
Doubles as bit patterns: a sign, an exponent of eleven bits and a fraction of fifty-two. The order of
numbers takes both zeros for one and leaves out what is no number; the total order of patterns tells
everything apart.
-/

namespace Timetable

/-- A double by its bits. -/
structure Double where
  bits : UInt64
deriving DecidableEq, Repr, Inhabited

namespace Double

/-- The pattern of the sign alone. -/
@[inline] def signBit : UInt64 := 0x8000000000000000

@[inline] def isNegative (x : Double) : Bool := signBit ≤ x.bits

/-- The bits below the sign. -/
@[inline] def magnitude (x : Double) : UInt64 := x.bits % signBit

/-- The magnitude of both infinities; greater ones stand for no number. -/
@[inline] def infinityMagnitude : UInt64 := 0x7ff0000000000000

@[inline] def isNaN (x : Double) : Bool := infinityMagnitude < x.magnitude

@[inline] def isFinite (x : Double) : Bool := x.magnitude < infinityMagnitude

instance : OfNat Double 0 := ⟨⟨0⟩⟩

instance : OfNat Double 1 := ⟨⟨0x3ff0000000000000⟩⟩

instance : OfNat Double 2 := ⟨⟨0x4000000000000000⟩⟩

def half : Double := ⟨0x3fe0000000000000⟩

def infinity : Double := ⟨infinityMagnitude⟩

/-- The same size with the other sign. -/
def negated (x : Double) : Double := ⟨x.bits ^^^ signBit⟩

instance : Neg Double := ⟨negated⟩

/-- Places grow with the numbers; both zeros have the place in the middle. -/
@[inline] def place (x : Double) : UInt64 :=
  if x.isNegative then signBit - x.magnitude else signBit + x.magnitude

/-- Places of patterns: the negative zero comes before the positive one, and what is no number before
the negative infinity or after the positive one. -/
def totalPlace (x : Double) : UInt64 :=
  if x.isNegative then signBit - 1 - x.magnitude else signBit + x.magnitude

/-- Only numbers compare. -/
@[inline] def below (x y : Double) : Bool := !x.isNaN && !y.isNaN && x.place < y.place

/-- Only numbers compare. -/
@[inline] def atMost (x y : Double) : Bool := !x.isNaN && !y.isNaN && x.place ≤ y.place

instance : LT Double := ⟨fun x y => x.below y = true⟩

instance : LE Double := ⟨fun x y => x.atMost y = true⟩

instance (x y : Double) : Decidable (x < y) := inferInstanceAs (Decidable (x.below y = true))

instance (x y : Double) : Decidable (x ≤ y) := inferInstanceAs (Decidable (x.atMost y = true))

theorem lt_iff {x y : Double} :
    x < y ↔ x.isNaN = false ∧ y.isNaN = false ∧ x.place < y.place := by
  change x.below y = true ↔ _
  simp [below, and_assoc]

theorem le_iff {x y : Double} :
    x ≤ y ↔ x.isNaN = false ∧ y.isNaN = false ∧ x.place ≤ y.place := by
  change x.atMost y = true ↔ _
  simp [atMost, and_assoc]

/-- The number of fractions. -/
def fractionLimit : Nat := 0x10000000000000

def biasedExponent (x : Double) : Nat := x.magnitude.toNat / fractionLimit

def fractionBits (x : Double) : Nat := x.magnitude.toNat % fractionLimit

/-- A finite double has the size `significand * 2 ^ exponent`. -/
def significand (x : Double) : Nat :=
  if x.biasedExponent = 0 then x.fractionBits else fractionLimit + x.fractionBits

/-- The smallest exponent is shared by the subnormal numbers and the first normal ones. -/
def exponent (x : Double) : Int := (max x.biasedExponent 1 : Nat) - 1075

/-- The integer nearest to a finite double, a half going away from zero. -/
def nearestInteger (x : Double) : Int :=
  let size : Nat :=
    if 0 ≤ x.exponent then x.significand * Nat.pow 2 x.exponent.toNat
    else
      let unit := Nat.pow 2 x.exponent.natAbs
      (2 * x.significand + unit) / (2 * unit)
  if x.isNegative then - (size : Int) else size

/-- The nearest integer of 64 bits; 0 for what is no number. -/
def nearestInt64 (x : Double) : Int :=
  let least : Int := -0x8000000000000000
  let greatest : Int := 0x7fffffffffffffff
  if x.isNaN then 0
  else if x.isFinite then max least (min greatest x.nearestInteger)
  else if x.isNegative then least
  else greatest

end Double

end Timetable
