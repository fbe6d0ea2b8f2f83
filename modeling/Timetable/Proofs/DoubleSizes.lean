import Timetable.Proofs.Rounding

/-! Sizes of doubles. Every operation on numbers that are not below zero gives the double nearest to the exact result,
as long as that is within their range. -/

namespace Timetable.Proofs.DoubleSizes
open Float.Model Float.Model.UnpackedFloat Rounding DoubleSigns

variable {x y : Double} {u v : UnpackedFloat} {mantissa : Nat} {exponent : Int} {sign : Sign}

def unpacked (x : Double) : UnpackedFloat := unpack .binary64 x.bits.toBitVec

/-- What a finite double amounts to, without its sign. -/
def amount (x : Double) : ℚ := x.significand * 2 ^ x.exponent

theorem magnitude_toNat (x : Double) : x.magnitude.toNat = x.bits.toNat % 2 ^ 63 := by
  rw [Double.magnitude, UInt64.toNat_mod, signBit_toNat]

private theorem unpackMantissa_toNat (x : Double) :
    (@unpackMantissa .binary64 x.bits.toBitVec).toNat = x.fractionBits := by
  simp only [unpackMantissa, BitVec.toNat_cast, BitVec.extractLsb_toNat, UInt64.toNat_toBitVec, Double.fractionBits,
    magnitude_toNat, Double.fractionLimit]
  change x.bits.toNat % 2 ^ 52 = _
  omega

private theorem unpackExponent_toNat (x : Double) :
    (@unpackExponent .binary64 x.bits.toBitVec).toNat = x.biasedExponent := by
  simp only [unpackExponent, BitVec.toNat_cast, BitVec.extractLsb_toNat, UInt64.toNat_toBitVec, Double.biasedExponent,
    magnitude_toNat, Double.fractionLimit, Nat.shiftRight_eq_div_pow]
  change x.bits.toNat / 2 ^ 52 % 2 ^ 11 = _
  omega

private theorem isFinite_iff : x.isFinite = true ↔ x.biasedExponent < 2047 := by
  rw [Double.isFinite, decide_eq_true_eq, UInt64.lt_iff_toNat_lt, Double.biasedExponent, Double.fractionLimit]
  change _ < 2047 * 2 ^ 52 ↔ _
  omega

private theorem biasedExponent_le (x : Double) : x.biasedExponent ≤ 2047 := by
  rw [Double.biasedExponent, magnitude_toNat, Double.fractionLimit]
  omega

private theorem implicit_digit (bits : BitVec 52) : (1#1 ++ bits).toNat = 2 ^ 52 + bits.toNat := by
  rw [BitVec.toNat_append, ← Nat.shiftLeft_add_eq_or_of_lt bits.isLt]
  rfl

inductive Special : UnpackedFloat → Prop where
  | notANumber : Special .notANumber
  | infinity (sign : Sign) : Special (.infinity sign)

/-- The exponents and digits of a pattern decide what it unpacks to. -/
theorem unpacked_cases (x : Double) :
    x.biasedExponent = 2047 ∧ Special (unpacked x) ∨
    x.biasedExponent < 2047 ∧ Canonical (unpacked x) ∧ size (unpacked x) = amount x := by
  have exponent := unpackExponent_toNat x
  have mantissa := unpackMantissa_toNat x
  have fraction : x.fractionBits < 2 ^ 52 := Nat.mod_lt _ (by decide)
  have most := biasedExponent_le x
  have ones : (-1#11 : BitVec 11).toNat = 2047 := rfl
  unfold unpacked UnpackedFloat.unpack amount Double.significand Double.exponent
  dsimp only
  split
  · rename_i all
    have all : x.biasedExponent = 2047 := by rw [← exponent, all, ones]
    refine .inl ⟨all, ?_⟩
    split
    · exact .infinity _
    · exact .notANumber
  · rename_i other
    have other : x.biasedExponent < 2047 := by
      have other : x.biasedExponent ≠ 2047 := fun all => other (BitVec.eq_of_toNat_eq (by rw [exponent, all, ones]))
      omega
    refine .inr ⟨other, ?_⟩
    split
    · rename_i none
      have none : x.biasedExponent = 0 := by rw [← exponent, none]; rfl
      rw [if_pos none, none]
      split
      · rename_i nothing
        have nothing : x.fractionBits = 0 := by rw [← mantissa, nothing]; rfl
        exact ⟨.zero _, by rw [nothing, Nat.cast_zero, zero_mul, size_zero]⟩
      · have bias : ((@unpackExponent .binary64 x.bits.toBitVec).toNat : Int) -
            ((Format.binary64.exponentBias : Nat) + (52 : Nat)) + 1 = -1074 := by
          rw [exponent, none]
          rfl
        refine ⟨.finite (by omega) (by omega) (.inr bias), ?_⟩
        rw [size_finite, mantissa, bias]
        rfl
    · rename_i some
      have some : x.biasedExponent ≠ 0 := fun none => some (BitVec.eq_of_toNat_eq (exponent.trans none))
      have bias : ((@unpackExponent .binary64 x.bits.toBitVec).toNat : Int) -
          ((Format.binary64.exponentBias : Nat) + (52 : Nat)) = (max x.biasedExponent 1 : Nat) - 1075 := by
        rw [exponent, max_eq_left (Nat.pos_of_ne_zero some)]
        rfl
      have digits : (1#1 ++ @unpackMantissa .binary64 x.bits.toBitVec).toNat =
          Double.fractionLimit + x.fractionBits := by
        rw [implicit_digit, mantissa]
        rfl
      have limit : Double.fractionLimit = 2 ^ 52 := rfl
      refine ⟨.finite (by omega) (by omega) (.inl (by omega)), ?_⟩
      rw [if_neg some, size_finite, digits, bias]

theorem unpacked_finite (finite : x.isFinite = true) : Canonical (unpacked x) ∧ size (unpacked x) = amount x := by
  rcases unpacked_cases x with ⟨all, -⟩ | ⟨-, canonical⟩
  · exact absurd (isFinite_iff.mp finite) (by omega)
  · exact canonical

private theorem isFinite_of_canonical (canonical : Canonical (unpacked x)) : x.isFinite = true := by
  rcases unpacked_cases x with ⟨-, special⟩ | ⟨below, -⟩
  · generalize unpacked x = u at canonical special
    cases special <;> cases canonical
  · exact isFinite_iff.mpr below

private theorem finite_congr {some : 0 < mantissa} {digits : Nat} {place : Int} {other : 0 < digits}
    (mantissas : digits = mantissa) (exponents : place = exponent) :
    UnpackedFloat.finite sign digits place other = .finite sign mantissa exponent some := by
  subst mantissas exponents
  rfl

private theorem sign_kept : Sign.ofBitVec sign.toBitVec = sign := by
  cases sign <;> rfl

private theorem unpack_pack_normal {some : 0 < mantissa} (fits : mantissa < 2 ^ 53) (leading : 2 ^ 52 ≤ mantissa)
    (least : -1074 ≤ exponent) (most : exponent ≤ 971) :
    unpack .binary64 (pack .binary64 (.finite sign mantissa exponent some)) = .finite sign mantissa exponent some := by
  generalize biased_eq : (exponent + (1023 : Nat) + (52 : Nat)).toNat = biased
  have biased_toNat : (BitVec.ofNat 11 biased).toNat = biased := Nat.mod_eq_of_lt (by omega)
  have packed : pack .binary64 (.finite sign mantissa exponent some) =
      packComponents .binary64 sign (BitVec.ofNat 11 biased) (BitVec.ofNat 52 mantissa) := by
    rw [← biased_eq]
    unfold UnpackedFloat.pack
    dsimp only
    rw [if_neg, if_pos]
    · rfl
    · rw [(Nat.log2_eq_iff some.ne').mpr ⟨leading, fits⟩]
      rfl
    · change ¬ 2 ^ 11 ≤ (exponent + (1023 : Nat) + (52 : Nat)).toNat + 1
      omega
  have inner : BitVec.ofNat 11 biased ≠ -1#11 := by
    intro all
    rw [all] at biased_toNat
    change 2047 = biased at biased_toNat
    omega
  have outer : BitVec.ofNat 11 biased ≠ 0#11 := by
    intro none
    rw [none] at biased_toNat
    change 0 = biased at biased_toNat
    omega
  rw [packed]
  unfold UnpackedFloat.unpack
  simp only [unpackMantissa_packComponents, unpackExponent_packComponents, unpackSign_packComponents, sign_kept]
  rw [if_neg inner, if_neg outer]
  apply finite_congr
  · rw [implicit_digit, BitVec.toNat_ofNat]
    omega
  · rw [biased_toNat]
    change (biased : Int) - (1023 + 52) = exponent
    omega

private theorem unpack_pack_subnormal {some : 0 < mantissa} (small : mantissa < 2 ^ 52) :
    unpack .binary64 (pack .binary64 (.finite sign mantissa (-1074) some)) = .finite sign mantissa (-1074) some := by
  have digits : mantissa.log2 < 52 := (Nat.log2_lt some.ne').mpr small
  have packed : pack .binary64 (.finite sign mantissa (-1074) some) =
      packComponents .binary64 sign 0#11 (BitVec.ofNat 52 mantissa) := by
    unfold UnpackedFloat.pack
    dsimp only
    rw [if_neg (by decide), if_neg]
    change mantissa.log2 + 1 ≠ 53
    omega
  have mantissa_toNat : (BitVec.ofNat 52 mantissa).toNat = mantissa := Nat.mod_eq_of_lt small
  have nonzero : BitVec.ofNat 52 mantissa ≠ 0#52 := by
    intro none
    rw [none] at mantissa_toNat
    change 0 = mantissa at mantissa_toNat
    omega
  rw [packed]
  unfold UnpackedFloat.unpack
  simp only [unpackMantissa_packComponents, unpackExponent_packComponents, unpackSign_packComponents, sign_kept]
  rw [if_neg (by decide), if_pos trivial, dif_neg nonzero]
  exact finite_congr mantissa_toNat rfl

/-- Finite doubles lie below this. -/
def range : ℚ := 2 ^ (1024 : Int)

/-- What is in range loses nothing when it is packed. -/
theorem unpack_pack (canonical : Canonical u) (inside : size u < range) : unpack .binary64 (pack .binary64 u) = u := by
  cases canonical with
  | zero sign => cases sign <;> rfl
  | @finite sign mantissa exponent some fits least normal =>
    rcases Nat.lt_or_ge mantissa (2 ^ 52) with small | leading
    · obtain rfl : exponent = -1074 := normal.resolve_left (by omega)
      exact unpack_pack_subnormal small
    · apply unpack_pack_normal fits leading least
      by_contra beyond
      apply absurd inside
      have digits : (2 : ℚ) ^ 52 ≤ mantissa := by exact_mod_cast leading
      have places : (2 : ℚ) ^ (972 : Int) ≤ 2 ^ exponent := zpow_le_zpow_right₀ one_le_two (by omega)
      rw [not_lt, size_finite, range]
      calc (2 : ℚ) ^ (1024 : Int) = 2 ^ 52 * 2 ^ (972 : Int) := by
            rw [← zpow_natCast, ← zpow_add₀ two_ne_zero]
            rfl
        _ ≤ mantissa * 2 ^ exponent := by gcongr

def packed (u : UnpackedFloat) : Double := Double.ofFloat (.ofModel (.pack u))

private theorem unpacked_packed (canonical : Canonical u) (inside : size u < range) : unpacked (packed u) = u :=
  unpack_pack canonical inside

private theorem packed_finite (canonical : Canonical u) (inside : size u < range) :
    (packed u).isFinite = true ∧ amount (packed u) = size u := by
  have same := unpacked_packed canonical inside
  have finite : (packed u).isFinite = true := isFinite_of_canonical (by rwa [same])
  exact ⟨finite, by rw [← (unpacked_finite finite).2, same]⟩

private theorem packed_infinite (sign : Sign) : (packed (.infinity sign)).isFinite = false := by
  cases sign <;> decide

/-- What is out of range is packed as infinity. -/
theorem inside_of_finite (canonical : Canonical u) (finite : (packed u).isFinite = true) : size u < range := by
  cases canonical with
  | zero => exact zpow_pos two_pos _
  | @finite sign mantissa exponent some fits least normal =>
    by_contra beyond
    have beyond : ¬ exponent ≤ 971 := by
      intro most
      apply beyond
      have digits : (mantissa : ℚ) < 2 ^ 53 := by exact_mod_cast fits
      have places : (2 : ℚ) ^ exponent ≤ 2 ^ (971 : Int) := zpow_le_zpow_right₀ one_le_two most
      rw [size_finite, range]
      calc (mantissa : ℚ) * 2 ^ exponent < 2 ^ 53 * 2 ^ exponent := by gcongr
        _ ≤ 2 ^ 53 * 2 ^ (971 : Int) := by gcongr
        _ = 2 ^ (1024 : Int) := by
          rw [← zpow_natCast, ← zpow_add₀ two_ne_zero]
          rfl
    have infinite : pack .binary64 (.finite sign mantissa exponent some) = pack .binary64 (.infinity sign) := by
      unfold UnpackedFloat.pack
      dsimp only
      rw [if_pos]
      change 2 ^ 11 ≤ (exponent + (1023 : Nat) + (52 : Nat)).toNat + 1
      omega
    have same : packed (.finite sign mantissa exponent some) = packed (.infinity sign) := by
      unfold packed Float.Model.pack
      simp only [infinite]
    rw [same, packed_infinite] at finite
    cases finite

theorem amount_lt_range (finite : x.isFinite = true) : amount x < range := by
  have below := isFinite_iff.mp finite
  have fraction : x.fractionBits < 2 ^ 52 := Nat.mod_lt _ (by decide)
  have digits : (x.significand : ℚ) < 2 ^ 53 := by
    have digits : x.significand < 2 ^ 53 := by
      rw [Double.significand, Double.fractionLimit]
      split <;> omega
    exact_mod_cast digits
  have places : (2 : ℚ) ^ x.exponent ≤ 2 ^ (971 : Int) := by
    refine zpow_le_zpow_right₀ one_le_two ?_
    rw [Double.exponent]
    omega
  rw [amount, range]
  calc (x.significand : ℚ) * 2 ^ x.exponent < 2 ^ 53 * 2 ^ x.exponent := by gcongr
    _ ≤ 2 ^ 53 * 2 ^ (971 : Int) := by gcongr
    _ = 2 ^ (1024 : Int) := by
      rw [← zpow_natCast, ← zpow_add₀ two_ne_zero]
      rfl

private theorem operand_eq (finite : x.isFinite = true) : operand x = unpacked x := by
  obtain ⟨canonical, sized⟩ := unpacked_finite finite
  exact unpack_pack canonical (sized ▸ amount_lt_range finite)

theorem amount_nonneg (x : Double) : 0 ≤ amount x :=
  mul_nonneg (Nat.cast_nonneg _) (zpow_nonneg zero_le_two _)

theorem isNaN_of_finite (finite : x.isFinite = true) : x.isNaN = false := by
  simp only [Double.isFinite, Double.isNaN, decide_eq_true_eq, decide_eq_false_iff_not] at *
  rw [UInt64.lt_iff_toNat_lt] at *
  omega

private theorem notBelow_unpacked (finite : x.isFinite = true) (least : AtLeastZero x) : NotBelow (unpacked x) := by
  rw [← operand_eq finite]
  exact notBelow_operand least (isNaN_of_finite finite)

/-- What an operation makes of an exact result: the nearest double, unless it is out of range. -/
structure Computes (exact : ℚ) (x : Double) : Prop where
  ranged : exact ≤ 2 ^ 64 → x.isFinite = true
  rounded : x.isFinite = true → Rounded exact (unpacked x)

variable {exact : ℚ}

private theorem inside_range (rounded : Rounded exact u) (least : 0 ≤ exact) (most : exact ≤ 2 ^ 64) :
    size u < range := by
  have error := abs_le.mp (rounded.error least)
  have tiny : (2 : ℚ) ^ (-1075 : Int) ≤ 1 := zpow_le_one_of_nonpos₀ one_le_two (by norm_num)
  have wide : (2 : ℚ) ^ (66 : Int) ≤ range := zpow_le_zpow_right₀ one_le_two (by norm_num)
  have small : exact / 2 ^ 53 ≤ 2 ^ 64 / 2 ^ 53 := by gcongr
  norm_num at wide small most
  linarith [error.2]

private theorem computes_result (rounded : Rounded exact u) (least : 0 ≤ exact) :
    Computes exact (Double.ofResult (.ofModel (.pack u))) := by
  have result : Double.ofResult (.ofModel (.pack u)) = if (packed u).isNaN then Double.indefinite else packed u := rfl
  rw [result]
  constructor
  · intro most
    have finite := (packed_finite rounded.canonical (inside_range rounded least most)).1
    rw [isNaN_of_finite finite]
    exact finite
  · split
    · intro finite
      cases finite
    · intro finite
      rwa [unpacked_packed rounded.canonical (inside_of_finite rounded.canonical finite)]

private theorem combine_finite {operation : Float → Float → Float} (first : x.isFinite = true)
    (second : y.isFinite = true) :
    Double.combine operation x y = Double.ofResult (operation x.toFloat y.toFloat) := by
  unfold Double.combine
  rw [isNaN_of_finite first, isNaN_of_finite second]
  rfl

theorem computes_add (first : x.isFinite = true) (second : y.isFinite = true) (least : AtLeastZero x)
    (other : AtLeastZero y) : Computes (amount x + amount y) (x + y) := by
  obtain ⟨canonical, sized⟩ := unpacked_finite first
  obtain ⟨canonical', sized'⟩ := unpacked_finite second
  have sum := rounded_add canonical canonical' (notBelow_unpacked first least) (notBelow_unpacked second other)
  rw [sized, sized', ← operand_eq first, ← operand_eq second] at sum
  have computed := computes_result sum (add_nonneg (amount_nonneg x) (amount_nonneg y))
  change Computes _ (Double.combine _ x y)
  rw [combine_finite first second]
  exact computed

theorem computes_mul (first : x.isFinite = true) (second : y.isFinite = true) :
    Computes (amount x * amount y) (x * y) := by
  obtain ⟨canonical, sized⟩ := unpacked_finite first
  obtain ⟨canonical', sized'⟩ := unpacked_finite second
  have product := rounded_mul canonical canonical'
  rw [sized, sized', ← operand_eq first, ← operand_eq second] at product
  have computed := computes_result product (mul_nonneg (amount_nonneg x) (amount_nonneg y))
  change Computes _ (Double.combine _ x y)
  rw [combine_finite first second]
  exact computed

theorem computes_div (first : x.isFinite = true) (second : y.isFinite = true) (some : 0 < amount y) :
    Computes (amount x / amount y) (x / y) := by
  obtain ⟨canonical, sized⟩ := unpacked_finite first
  obtain ⟨canonical', sized'⟩ := unpacked_finite second
  have quotient := rounded_div canonical canonical' (sized'.symm ▸ some)
  rw [sized, sized', ← operand_eq first, ← operand_eq second] at quotient
  have computed := computes_result quotient (div_nonneg (amount_nonneg x) (amount_nonneg y))
  change Computes _ (Double.combine _ x y)
  rw [combine_finite first second]
  exact computed

private theorem ofNat_word {n : Nat} (word : n < UInt64.size) : Double.ofNat n = packed (.ofNat .binary64 n) := by
  rw [Double.ofNat, if_pos word]
  change packed (.ofNat .binary64 n.toUInt64.toNat) = _
  rw [Nat.toUInt64, UInt64.toNat_ofNat_of_lt' word]

/-- Natural numbers with few digits are doubles. -/
theorem exists_canonical {n : Nat} (few : n < 2 ^ 53) : ∃ v, Canonical v ∧ size v = n := by
  rcases Nat.eq_zero_or_pos n with rfl | some
  · exact ⟨_, .zero .positive, Nat.cast_zero.symm⟩
  · have digits : n.log2 ≤ 52 := Nat.le_of_lt_succ ((Nat.log2_lt some.ne').mpr few)
    have all : (n * 2 ^ (52 - n.log2)).log2 = 52 := by
      rw [log2_mul_two_pow some]
      omega
    have positive : 0 < n * 2 ^ (52 - n.log2) := by positivity
    obtain ⟨leading, fits⟩ := (Nat.log2_eq_iff positive.ne').mp all
    refine ⟨.finite .positive _ (0 - (52 - n.log2 : Nat)) positive, .finite fits (by omega) (.inl leading), ?_⟩
    rw [size_finite, same_size, zpow_zero, mul_one]

theorem computes_whole {n : Nat} (few : n < 2 ^ 53) (computed : Computes n x) : x.isFinite = true ∧ amount x = n := by
  obtain ⟨v, canonical, sized⟩ := exists_canonical few
  have finite : x.isFinite = true := by
    apply computed.ranged
    have few : (n : ℚ) < 2 ^ 53 := by exact_mod_cast few
    norm_num at few ⊢
    linarith
  refine ⟨finite, ?_⟩
  have rounded := computed.rounded finite
  rw [← sized] at rounded
  rw [← (unpacked_finite finite).2, rounded.exact canonical, sized]

private theorem ofNat_canonical {n : Nat} (few : n < 2 ^ 53) :
    Canonical (ofNat .binary64 n) ∧ size (ofNat .binary64 n) = n := by
  obtain ⟨v, canonical, sized⟩ := exists_canonical few
  have rounded := rounded_ofNat n
  rw [← sized] at rounded
  exact ⟨rounded.canonical, (rounded.exact canonical).trans sized⟩

private theorem few_inside {n : Nat} (few : n < 2 ^ 53) : (n : ℚ) < range := by
  refine @lt_trans _ _ _ ((2 : ℚ) ^ 53) _ (by exact_mod_cast few) ?_
  exact zpow_lt_zpow_right₀ one_lt_two (by norm_num : (53 : Int) < 1024)

theorem ofNat_exact {n : Nat} (few : n < 2 ^ 53) : (Double.ofNat n).isFinite = true ∧ amount (Double.ofNat n) = n := by
  obtain ⟨canonical, sized⟩ := ofNat_canonical few
  rw [ofNat_word (few.trans (by decide))]
  obtain ⟨finite, whole⟩ := packed_finite canonical (sized ▸ few_inside few)
  exact ⟨finite, whole.trans sized⟩

/-- A short run of digits is read by a product with a power of ten, which without a scale is one. -/
theorem scientific_finite {n : Nat} (few : n < 2 ^ 53) :
    (OfScientific.ofScientific n false 0 : Double).isFinite = true := by
  obtain ⟨canonical, sized⟩ := ofNat_canonical few
  have one : Canonical (unpacked 1) ∧ size (unpacked 1) = 1 := by
    obtain ⟨canonical, sized⟩ := unpacked_finite (x := 1) (by decide)
    exact ⟨canonical, sized.trans (by decide +kernel)⟩
  have product : (OfScientific.ofScientific n false 0 : Double) =
      packed (mul .binary64 (unpacked (packed (ofNat .binary64 n.toUInt64.toNat))) (unpacked 1)) := by
    change Double.ofFloat (Float.ofScientific n false 0) = _
    rw [Float.ofScientific, dif_pos ⟨few, by decide⟩]
    rfl
  have rounded := rounded_mul canonical one.1
  rw [one.2, mul_one] at rounded
  have inside : size (mul .binary64 (ofNat .binary64 n) (unpacked 1)) < range := by
    rw [rounded.exact canonical, sized]
    exact few_inside few
  have word : n.toUInt64.toNat = n := UInt64.toNat_ofNat_of_lt' (few.trans (by decide))
  rw [product, word, unpacked_packed canonical (sized ▸ few_inside few)]
  exact (packed_finite rounded.canonical inside).1

private theorem Special.add_left (special : Special u) : Special (add .binary64 u v) := by
  cases special with
  | notANumber => exact .notANumber
  | infinity sign =>
    cases v with
    | infinity other =>
      unfold UnpackedFloat.add
      dsimp only
      split
      · exact .infinity _
      · exact .notANumber
    | notANumber => exact .notANumber
    | zero => exact .infinity _
    | finite => exact .infinity _

private theorem Special.add_right (special : Special v) : Special (add .binary64 u v) := by
  cases u with
  | infinity => exact Special.add_left (.infinity _)
  | notANumber => exact .notANumber
  | zero => cases special <;> constructor
  | finite => cases special <;> constructor

private theorem operand_special (beyond : x.isFinite = false) : Special (operand x) := by
  have packs : operand x = unpack .binary64 (pack .binary64 (unpacked x)) := rfl
  rcases unpacked_cases x with ⟨-, special⟩ | ⟨below, -⟩
  · rw [packs]
    generalize unpacked x = u at special
    cases special with
    | notANumber => exact .notANumber
    | infinity sign => cases sign <;> exact .infinity _
  · rw [isFinite_iff.mpr below] at beyond
    cases beyond

theorem Special.ofResult (special : Special u) : (Double.ofResult (.ofModel (.pack u))).isFinite = false := by
  cases special with
  | notANumber => decide
  | infinity sign => cases sign <;> decide

private theorem isFinite_quiet (none : x.isNaN = true) : x.quiet.isFinite = false := by
  by_contra finite
  have number := isNaN_of_finite (Bool.not_eq_false _ ▸ finite)
  rw [isNaN_quiet none] at number
  cases number

private theorem finite_of_add (finite : (x + y).isFinite = true) : x.isFinite = true ∧ y.isFinite = true := by
  change (Double.combine _ x y).isFinite = true at finite
  unfold Double.combine at finite
  split at finite
  · rename_i none
    rw [isFinite_quiet none] at finite
    cases finite
  · split at finite
    · rename_i none
      rw [isFinite_quiet none] at finite
      cases finite
    · change (Double.ofResult (.ofModel (.pack (UnpackedFloat.add .binary64 (operand x) (operand y))))).isFinite = true
        at finite
      constructor
      · by_contra beyond
        rw [(operand_special (by simpa using beyond)).add_left.ofResult] at finite
        cases finite
      · by_contra beyond
        rw [(operand_special (by simpa using beyond)).add_right.ofResult] at finite
        cases finite

private theorem le_add (finite : (x + y).isFinite = true) (least : AtLeastZero x) (other : AtLeastZero y) :
    amount x ≤ amount (x + y) ∧ amount y ≤ amount (x + y) := by
  obtain ⟨first, second⟩ := finite_of_add finite
  have rounded := (computes_add first second least other).rounded finite
  obtain ⟨canonical, sized⟩ := unpacked_finite first
  obtain ⟨canonical', sized'⟩ := unpacked_finite second
  rw [← (unpacked_finite finite).2, ← sized, ← sized']
  constructor
  · apply rounded.le_of_le canonical
    rw [sized]
    exact le_add_of_nonneg_right (amount_nonneg y)
  · apply rounded.le_of_le canonical'
    rw [sized']
    exact le_add_of_nonneg_left (amount_nonneg x)

/-- A sum that stays in range is not below any of its parts. -/
theorem le_foldl_add (parts : List Double) (atLeastZero : ∀ part ∈ parts, AtLeastZero part) (start : Double)
    (least : AtLeastZero start) (finite : (parts.foldl (· + ·) start).isFinite = true) :
    AtLeastZero (parts.foldl (· + ·) start) ∧ start.isFinite = true ∧
      amount start ≤ amount (parts.foldl (· + ·) start) ∧
      ∀ part ∈ parts, part.isFinite = true ∧ amount part ≤ amount (parts.foldl (· + ·) start) := by
  induction parts generalizing start with
  | nil => exact ⟨least, finite, le_rfl, fun _ member => absurd member List.not_mem_nil⟩
  | cons first rest ih =>
    have firstLeast := atLeastZero first List.mem_cons_self
    obtain ⟨total, whole, most, others⟩ := ih (fun part member => atLeastZero part (List.mem_cons_of_mem _ member))
      (start + first) (atLeastZero_add least firstLeast) finite
    obtain ⟨startFinite, firstFinite⟩ := finite_of_add whole
    obtain ⟨startMost, firstMost⟩ := le_add whole least firstLeast
    refine ⟨total, startFinite, startMost.trans most, fun part member => ?_⟩
    rcases List.mem_cons.mp member with rfl | member
    · exact ⟨firstFinite, firstMost.trans most⟩
    · exact others part member

/-- The nearest integer of a number that is not below zero. -/
theorem nearestInteger_eq (least : AtLeastZero x) (number : x.isNaN = false) :
    x.nearestInteger = ⌊amount x + 1 / 2⌋ := by
  rcases least with none | plain | zero
  · rw [number] at none
    cases none
  · simp only [Double.nearestInteger, plain, Bool.false_eq_true, if_false, amount]
    split
    · rename_i whole
      have same : (x.significand : ℚ) * 2 ^ x.exponent = (x.significand * Nat.pow 2 x.exponent.toNat : Nat) := by
        rw [Nat.pow_eq, Nat.cast_mul, Nat.cast_pow, ← zpow_natCast, Int.toNat_of_nonneg whole]
        rfl
      rw [same]
      symm
      apply Int.floor_eq_iff.mpr
      push_cast
      constructor <;> linarith
    · rename_i broken
      have unit : (2 : ℚ) ^ x.exponent = 1 / (Nat.pow 2 x.exponent.natAbs : Nat) := by
        have places : x.exponent = -(x.exponent.natAbs : Int) := by omega
        rw [places, zpow_neg, zpow_natCast, Int.natAbs_neg, Int.natAbs_natCast, one_div, Nat.pow_eq]
        push_cast
        rfl
      have positive : (0 : ℚ) < (Nat.pow 2 x.exponent.natAbs : Nat) := by exact_mod_cast Nat.two_pow_pos _
      have parts : (x.significand : ℚ) * 2 ^ x.exponent + 1 / 2 =
          (2 * x.significand + Nat.pow 2 x.exponent.natAbs : Nat) / (2 * Nat.pow 2 x.exponent.natAbs : Nat) := by
        rw [unit]
        push_cast
        field_simp
      rw [parts, Rat.floor_natCast_div_natCast]
      push_cast
      rfl
  · obtain ⟨bits⟩ := x
    obtain rfl : bits = Double.signBit := zero
    have nothing : Double.significand ⟨Double.signBit⟩ = 0 := by decide
    rw [amount, nothing, Nat.cast_zero, zero_mul]
    have rounded : ⌊(0 : ℚ) + 1 / 2⌋ = 0 := by norm_num
    rw [rounded]
    decide +kernel

end Timetable.Proofs.DoubleSizes
