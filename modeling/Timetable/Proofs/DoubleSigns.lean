import Timetable.Double.Arithmetic
import Timetable.Double.Basic
import Mathlib

/-! Signs of doubles. Sums and products of numbers that are not below zero are not below zero either, and
neither are their quotients, as long as the divisor is not the negative zero. -/

namespace Timetable.Proofs.DoubleSigns
open Float.Model Float.Model.UnpackedFloat

/-- No number, or one that carries the positive sign. -/
inductive Upward : UnpackedFloat → Prop where
  | notANumber : Upward .notANumber
  | infinity : Upward (.infinity .positive)
  | zero : Upward (.zero .positive)
  | finite {mantissa : Nat} {exponent : Int} {some : 0 < mantissa} :
      Upward (.finite .positive mantissa exponent some)

/-- No number, or one that is not below zero; both zeros are not. -/
inductive NotBelow : UnpackedFloat → Prop where
  | notANumber : NotBelow .notANumber
  | infinity : NotBelow (.infinity .positive)
  | zero (sign : Sign) : NotBelow (.zero sign)
  | finite {mantissa : Nat} {exponent : Int} {some : 0 < mantissa} :
      NotBelow (.finite .positive mantissa exponent some)

variable {format : Format} {u v : UnpackedFloat} {bits : BitVec format.numBits}

private theorem Upward.notBelow (upward : Upward u) : NotBelow u := by
  cases upward with
  | notANumber => exact .notANumber
  | infinity => exact .infinity
  | zero => exact .zero _
  | finite => exact .finite

private theorem NotBelow.upward_or (notBelow : NotBelow u) : Upward u ∨ u = .zero .negative := by
  cases notBelow with
  | notANumber => exact .inl .notANumber
  | infinity => exact .inl .infinity
  | zero sign =>
    cases sign with
    | negative => exact .inr rfl
    | positive => exact .inl .zero
  | finite => exact .inl .finite

private theorem upward_unpack (clear : unpackSign bits = 0#1) : Upward (unpack format bits) := by
  have sign : Sign.ofBitVec (unpackSign bits) = .positive := by rw [clear]; rfl
  simp only [UnpackedFloat.unpack, sign]
  split
  · split
    · exact .infinity
    · exact .notANumber
  · split
    · split
      · exact .zero
      · exact .finite
    · exact .finite

private theorem clear_pack (upward : Upward u) : unpackSign (pack format u) = 0#1 := by
  have clear (exponent : BitVec format.exponentBits) (mantissa : BitVec format.mantissaBitsWithoutImplicit) :
      unpackSign (packComponents format .positive exponent mantissa) = 0#1 :=
    unpackSign_packComponents _ _ _
  cases upward with
  | notANumber => exact clear _ _
  | infinity => exact clear _ _
  | zero => exact clear _ _
  | finite =>
    unfold UnpackedFloat.pack
    dsimp only
    split
    · exact clear _ _
    · split
      · exact clear _ _
      · exact clear _ _

private theorem upward_rounded (mantissa : Nat) (exponent : Int) (accuracy : Accuracy) :
    Upward (roundWithAccuracy format .positive mantissa exponent accuracy) := by
  unfold roundWithAccuracy
  dsimp only
  split
  · exact .zero
  · exact .finite

private theorem upward_normalize {mantissa : Int} (least : 0 ≤ mantissa) (exponent : Int) :
    Upward (UnpackedFloat.normalize format mantissa exponent .positive) := by
  unfold UnpackedFloat.normalize
  split
  · rename_i below
    exact absurd (Int.compare_eq_lt.mp below) (by omega)
  · exact .zero
  · exact upward_rounded _ _ _

private theorem notBelow_add (first : NotBelow u) (second : NotBelow v) : NotBelow (add format u v) := by
  cases first with
  | notANumber => exact .notANumber
  | infinity =>
    cases second with
    | notANumber => exact .notANumber
    | infinity => exact .infinity
    | zero => exact .infinity
    | finite => exact .infinity
  | zero sign =>
    cases second with
    | notANumber => exact .notANumber
    | infinity => exact .infinity
    | zero other => cases sign <;> cases other <;> exact .zero _
    | finite => exact .finite
  | finite =>
    cases second with
    | notANumber => exact .notANumber
    | infinity => exact .infinity
    | zero => exact .finite
    | finite => exact (upward_normalize (Int.add_nonneg (Int.natCast_nonneg _) (Int.natCast_nonneg _)) _).notBelow

private theorem notBelow_mul (first : NotBelow u) (second : NotBelow v) : NotBelow (mul format u v) := by
  cases first with
  | notANumber => exact .notANumber
  | infinity => cases second <;> first | exact .notANumber | exact .infinity
  | zero => cases second <;> first | exact .notANumber | exact .zero _
  | finite =>
    cases second with
    | notANumber => exact .notANumber
    | infinity => exact .infinity
    | zero => exact .zero _
    | finite => exact (upward_rounded _ _ _).notBelow

private theorem notBelow_div (first : NotBelow u) (second : Upward v) : NotBelow (div format u v) := by
  cases first with
  | notANumber => exact .notANumber
  | infinity => cases second <;> first | exact .notANumber | exact .infinity
  | zero => cases second <;> first | exact .notANumber | exact .zero _
  | finite =>
    cases second with
    | notANumber => exact .notANumber
    | infinity => exact .zero _
    | zero => exact .infinity
    | finite => exact (upward_rounded _ _ _).notBelow

section
variable {x y : Double}

theorem signBit_toNat : Double.signBit.toNat = 2 ^ 63 := rfl

theorem isNegative_iff : x.isNegative = true ↔ 2 ^ 63 ≤ x.bits.toNat := by
  rw [Double.isNegative, decide_eq_true_eq, UInt64.le_iff_toNat_le, signBit_toNat]

/-- The sign of a pattern is its first bit. -/
theorem isNegative_eq_false :
    x.isNegative = false ↔ @unpackSign .binary64 x.bits.toBitVec = 0#1 := by
  have inside := x.bits.toNat_lt
  rw [← Bool.not_eq_true, isNegative_iff, ← BitVec.toNat_inj]
  simp only [unpackSign, BitVec.toNat_cast, BitVec.extractLsb_toNat, Nat.shiftRight_eq_div_pow,
    UInt64.toNat_toBitVec]
  change ¬ 2 ^ 63 ≤ x.bits.toNat ↔ x.bits.toNat / 2 ^ 63 % 2 = 0
  omega

def Unsigned (x : Double) : Prop := x.isNegative = false ∨ x.bits = Double.signBit

def AtLeastZero (x : Double) : Prop := x.isNaN = true ∨ Unsigned x

def operand (x : Double) : UnpackedFloat := x.toFloat.toModel.unpack

private theorem upward_operand (plain : x.isNegative = false) : Upward (operand x) :=
  upward_unpack (clear_pack (upward_unpack (isNegative_eq_false.mp plain)))

theorem notBelow_operand (least : AtLeastZero x) (number : x.isNaN = false) : NotBelow (operand x) := by
  rcases least with none | plain | zero
  · rw [number] at none
    cases none
  · exact (upward_operand plain).notBelow
  · obtain ⟨bits⟩ := x
    obtain rfl : bits = Double.signBit := zero
    have zero : operand ⟨Double.signBit⟩ = .zero .negative := by rfl
    exact zero ▸ .zero _

private theorem unsigned_packed (notBelow : NotBelow u) : Unsigned (Double.ofFloat (.ofModel (pack u))) := by
  rcases notBelow.upward_or with upward | rfl
  · exact .inl (isNegative_eq_false.mpr (clear_pack upward))
  · exact .inr rfl

/-- The place of a pattern with the sign and the pattern itself lie on both sides of the middle. -/
theorem place_negative (negative : x.isNegative = true) : x.place.toNat + x.bits.toNat = 2 ^ 64 := by
  have inside := x.bits.toNat_lt
  have beyond := isNegative_iff.mp negative
  have magnitude : x.magnitude.toNat = x.bits.toNat - 2 ^ 63 := by
    rw [Double.magnitude, UInt64.toNat_mod, signBit_toNat]
    omega
  have within : x.magnitude ≤ Double.signBit := by
    rw [UInt64.le_iff_toNat_le, magnitude, signBit_toNat]
    omega
  rw [Double.place, if_pos negative, UInt64.toNat_sub_of_le _ _ within, magnitude, signBit_toNat]
  omega

theorem atLeastZero_of_not_lt (least : ¬ x < 0) : AtLeastZero x := by
  rw [Double.lt_iff, not_and, not_and] at least
  cases number : x.isNaN with
  | true => exact .inl number
  | false =>
    have placed : ¬ x.place < Double.signBit := least number rfl
    rw [UInt64.lt_iff_toNat_lt, signBit_toNat] at placed
    cases sign : x.isNegative with
    | false => exact .inr (.inl sign)
    | true =>
      have mirrored := place_negative sign
      have beyond := isNegative_iff.mp sign
      refine .inr (.inr (UInt64.toNat_inj.mp ?_))
      rw [signBit_toNat]
      omega

theorem plain_of_not_le (above : ¬ x ≤ 0) (number : x.isNaN = false) : x.isNegative = false := by
  rw [Double.le_iff, not_and, not_and] at above
  have placed : ¬ x.place ≤ Double.signBit := above number rfl
  rw [UInt64.le_iff_toNat_le, signBit_toNat] at placed
  cases sign : x.isNegative with
  | false => rfl
  | true =>
    have mirrored := place_negative sign
    have beyond := isNegative_iff.mp sign
    omega

theorem isNaN_quiet (none : x.isNaN = true) : x.quiet.isNaN = true := by
  simp only [Double.isNaN, Double.magnitude, decide_eq_true_eq, UInt64.lt_iff_toNat_lt, UInt64.toNat_mod] at *
  have wider : x.bits.toNat % Double.signBit.toNat ≤ x.quiet.bits.toNat % Double.signBit.toNat := by
    rw [Double.quiet, UInt64.toNat_or]
    change _ % 2 ^ 63 ≤ _ % 2 ^ 63
    rw [Nat.or_mod_two_pow]
    exact Nat.left_le_or
  omega

/-- Whatever is no number is handed on, so an operation only has to be known on numbers. -/
theorem atLeastZero_combine {operation : Float → Float → Float}
    (result : x.isNaN = false → y.isNaN = false → Unsigned (Double.ofFloat (operation x.toFloat y.toFloat))) :
    AtLeastZero (Double.combine operation x y) := by
  unfold Double.combine
  split
  · rename_i none
    exact .inl (isNaN_quiet none)
  · rename_i first
    split
    · rename_i none
      exact .inl (isNaN_quiet none)
    · rename_i second
      unfold Double.ofResult
      dsimp only
      split
      · exact .inl rfl
      · exact .inr (result (by simpa using first) (by simpa using second))

theorem atLeastZero_add (first : AtLeastZero x) (second : AtLeastZero y) : AtLeastZero (x + y) :=
  atLeastZero_combine fun number other => unsigned_packed
    (notBelow_add (notBelow_operand first number) (notBelow_operand second other))

theorem atLeastZero_mul (first : AtLeastZero x) (second : AtLeastZero y) : AtLeastZero (x * y) :=
  atLeastZero_combine fun number other => unsigned_packed
    (notBelow_mul (notBelow_operand first number) (notBelow_operand second other))

theorem atLeastZero_div (first : AtLeastZero x) (second : y.isNaN = false → y.isNegative = false) :
    AtLeastZero (x / y) :=
  atLeastZero_combine fun number other => unsigned_packed
    (notBelow_div (notBelow_operand first number) (upward_operand (second other)))

theorem atLeastZero_ofNat {n : Nat} (word : n < UInt64.size) : AtLeastZero (.ofNat n) := by
  rw [Double.ofNat, if_pos word]
  exact .inr (unsigned_packed (upward_normalize (Int.natCast_nonneg _) _).notBelow)

theorem nearestInt64_nonneg (least : AtLeastZero x) : 0 ≤ x.nearestInt64 := by
  rcases least with none | plain | zero
  · have nothing : x.nearestInt64 = 0 := if_pos none
    exact Int.le_of_eq nothing.symm
  · have size : 0 ≤ x.nearestInteger := by
      simp only [Double.nearestInteger, plain, Bool.false_eq_true, if_false]
      exact Int.natCast_nonneg _
    simp only [Double.nearestInt64, plain, Bool.false_eq_true, if_false]
    split
    · omega
    · split <;> omega
  · obtain ⟨bits⟩ := x
    obtain rfl : bits = Double.signBit := zero
    decide +kernel

end

end Timetable.Proofs.DoubleSigns
