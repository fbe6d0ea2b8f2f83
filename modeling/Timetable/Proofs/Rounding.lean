import Timetable.Proofs.DoubleSigns

/-! Rounding to the nearest double. A mantissa and the two bits behind it stand for a size; shifting keeps what they
stand for, and what is rounded in the end is as near to the size as any double. -/

namespace Timetable.Proofs.Rounding
open Float.Model Float.Model.UnpackedFloat

/-- The size of a number; what is none has the size 0. -/
def size : UnpackedFloat → ℚ
  | .finite _ mantissa exponent _ => mantissa * 2 ^ exponent
  | _ => 0

@[simp] theorem size_zero (sign : Sign) : size (.zero sign) = 0 := rfl

theorem size_finite {sign : Sign} {mantissa : Nat} {exponent : Int} {some : 0 < mantissa} :
    size (.finite sign mantissa exponent some) = mantissa * 2 ^ exponent := rfl

inductive Canonical : UnpackedFloat → Prop where
  | zero (sign : Sign) : Canonical (.zero sign)
  | finite {sign : Sign} {mantissa : Nat} {exponent : Int} {some : 0 < mantissa} : mantissa < 2 ^ 53 →
      -1074 ≤ exponent → 2 ^ 52 ≤ mantissa ∨ exponent = -1074 → Canonical (.finite sign mantissa exponent some)

/-- What a mantissa stands for: the round bit is worth a half, the sticky bit something below a half. -/
inductive Stands : ExtendedMantissa → ℚ → Prop where
  | exact {mantissa : Nat} {x : ℚ} : x = mantissa → Stands ⟨mantissa, false, false⟩ x
  | above {mantissa : Nat} {x : ℚ} : mantissa < x → x < mantissa + 1 / 2 → Stands ⟨mantissa, false, true⟩ x
  | middle {mantissa : Nat} {x : ℚ} : x = mantissa + 1 / 2 → Stands ⟨mantissa, true, false⟩ x
  | below {mantissa : Nat} {x : ℚ} : mantissa + 1 / 2 < x → x < mantissa + 1 → Stands ⟨mantissa, true, true⟩ x

variable {em : ExtendedMantissa} {x y : ℚ} {mantissa : Nat} {exponent : Int} {accuracy : Accuracy} {sign : Sign}
  {u v : UnpackedFloat}

private theorem Stands.floor (stands : Stands em x) : em.mantissa ≤ x ∧ x < em.mantissa + 1 := by
  cases stands with
  | exact same => subst same; constructor <;> linarith
  | above low high => constructor <;> linarith
  | middle same => subst same; constructor <;> linarith
  | below low high => constructor <;> linarith

theorem Stands.halved (stands : Stands em x) : Stands em.shiftRightOne (x / 2) := by
  have digits (mantissa : Nat) : mantissa % 2 = 0 ∧ ((mantissa / 2 : Nat) : ℚ) = mantissa / 2 ∨
      mantissa % 2 = 1 ∧ ((mantissa / 2 : Nat) : ℚ) = mantissa / 2 - 1 / 2 := by
    have whole : ((2 * (mantissa / 2) + mantissa % 2 : Nat) : ℚ) = mantissa := by rw [Nat.div_add_mod]
    push_cast at whole
    rcases Nat.mod_two_eq_zero_or_one mantissa with even | odd
    · rw [even] at whole
      exact .inl ⟨even, by push_cast at whole ⊢; linarith⟩
    · rw [odd] at whole
      exact .inr ⟨odd, by push_cast at whole ⊢; linarith⟩
  have half := digits em.mantissa
  cases stands with
  | exact same =>
    obtain ⟨even, half⟩ | ⟨odd, half⟩ := half
    · simp only [ExtendedMantissa.shiftRightOne, even]
      exact .exact (by linarith)
    · simp only [ExtendedMantissa.shiftRightOne, odd]
      exact .middle (by linarith)
  | above low high =>
    obtain ⟨even, half⟩ | ⟨odd, half⟩ := half
    · simp only [ExtendedMantissa.shiftRightOne, even]
      exact .above (by linarith) (by linarith)
    · simp only [ExtendedMantissa.shiftRightOne, odd]
      exact .below (by linarith) (by linarith)
  | middle same =>
    obtain ⟨even, half⟩ | ⟨odd, half⟩ := half
    · simp only [ExtendedMantissa.shiftRightOne, even]
      exact .above (by linarith) (by linarith)
    · simp only [ExtendedMantissa.shiftRightOne, odd]
      exact .below (by linarith) (by linarith)
  | below low high =>
    obtain ⟨even, half⟩ | ⟨odd, half⟩ := half
    · simp only [ExtendedMantissa.shiftRightOne, even]
      exact .above (by linarith) (by linarith)
    · simp only [ExtendedMantissa.shiftRightOne, odd]
      exact .below (by linarith) (by linarith)

theorem Stands.shifted (stands : Stands em x) (places : Nat) : Stands (em >>> places) (x / 2 ^ places) := by
  induction places with
  | zero =>
    rw [pow_zero, div_one]
    exact stands
  | succ places ih =>
    rw [pow_succ, ← div_div]
    exact ih.halved

theorem Stands.rounded (stands : Stands em x) : |(em.roundedMantissa : ℚ) - x| ≤ 1 / 2 := by
  rw [abs_le]
  cases stands with
  | exact same =>
    change _ ≤ (_ : ℚ) - x ∧ _
    subst same
    constructor <;> simp [ExtendedMantissa.roundedMantissa, ExtendedMantissa.accuracy, Accuracy.roundToNearestEven]
  | above low high =>
    simp only [ExtendedMantissa.roundedMantissa, ExtendedMantissa.accuracy, Accuracy.roundToNearestEven]
    constructor <;> linarith
  | @middle mantissa _ same =>
    simp only [ExtendedMantissa.roundedMantissa, ExtendedMantissa.accuracy, Accuracy.roundToNearestEven]
    rcases Nat.mod_two_eq_zero_or_one mantissa with even | odd
    · rw [even]
      push_cast
      constructor <;> linarith
    · rw [odd]
      push_cast
      constructor <;> linarith
  | below low high =>
    simp only [ExtendedMantissa.roundedMantissa, ExtendedMantissa.accuracy, Accuracy.roundToNearestEven]
    push_cast
    constructor <;> linarith

def lastPlace (mantissa : Nat) (exponent : Int) : Int := max (mantissa.log2 + exponent - 52) (-1074)

private theorem targetExponent_eq :
    Format.binary64.targetExponent (totalExponent mantissa exponent) = lastPlace mantissa exponent := by
  simp only [Format.targetExponent, totalExponent, Format.mantissaBits, Format.minExponent, lastPlace]
  norm_num
  omega

/-- A mantissa that fits is not shifted. -/
theorem shift_fitting (fits : mantissa < 2 ^ 53) (least : -1074 ≤ exponent) :
    shiftToTargetExponent .binary64 mantissa exponent .exact = (⟨mantissa, false, false⟩, exponent) := by
  have digits : mantissa.log2 ≤ 52 := by
    by_cases none : mantissa = 0
    · simp [none]
    · exact Nat.le_of_lt_succ ((Nat.log2_lt none).mpr fits)
  have still : (lastPlace mantissa exponent - exponent).toNat = 0 := by
    unfold lastPlace
    omega
  unfold shiftToTargetExponent
  rw [targetExponent_eq, shiftToExponent, still]
  simp [ExtendedMantissa.ofMantissaAndAccuracy, HShiftRight.hShiftRight, Nat.repeat]

private theorem shift_carry (least : -1074 ≤ exponent) :
    shiftToTargetExponent .binary64 (2 ^ 53) exponent .exact = (⟨2 ^ 52, false, false⟩, exponent + 1) := by
  have once : (lastPlace (2 ^ 53) exponent - exponent).toNat = 1 := by
    rw [lastPlace, Nat.log2_two_pow]
    omega
  unfold shiftToTargetExponent
  rw [targetExponent_eq, shiftToExponent, once]
  rfl

/-- The result of rounding a size: digits up to a last place, and no more than half of that place away. -/
structure Rounded (y : ℚ) (u : UnpackedFloat) : Prop where
  canonical : Canonical u
  digits : ∃ (place : Int) (number : Nat), (2 ^ 52 * 2 ^ place ≤ y ∨ place = -1074) ∧ -1074 ≤ place ∧
    size u = number * 2 ^ place ∧ |number * 2 ^ place - y| ≤ 2 ^ place / 2

private theorem le_lastPlace (fine : 52 ≤ mantissa.log2 ∨ exponent ≤ -1074) :
    exponent ≤ lastPlace mantissa exponent := by
  unfold lastPlace
  omega

/-- The size in units of the last place, as what a mantissa stands for. -/
theorem stands_at_lastPlace (fine : 52 ≤ mantissa.log2 ∨ exponent ≤ -1074)
    (stands : Stands (.ofMantissaAndAccuracy mantissa accuracy) (y / 2 ^ exponent)) :
    ∃ em, shiftToTargetExponent .binary64 mantissa exponent accuracy = (em, lastPlace mantissa exponent) ∧
      Stands em (y / 2 ^ lastPlace mantissa exponent) := by
  have order := le_lastPlace fine
  have places : exponent + (lastPlace mantissa exponent - exponent).toNat = lastPlace mantissa exponent := by omega
  refine ⟨ExtendedMantissa.ofMantissaAndAccuracy mantissa accuracy >>>
    (lastPlace mantissa exponent - exponent).toNat, ?_, ?_⟩
  · unfold shiftToTargetExponent
    rw [targetExponent_eq, shiftToExponent, places]
  · have moved := stands.shifted (lastPlace mantissa exponent - exponent).toNat
    rwa [div_div, ← zpow_natCast, ← zpow_add₀ two_ne_zero, places] at moved

private theorem ofMantissaAndAccuracy_mantissa :
    (ExtendedMantissa.ofMantissaAndAccuracy mantissa accuracy).mantissa = mantissa := by
  cases accuracy with
  | exact => rfl
  | inexact order => cases order <;> rfl

/-- The leading digit of a size stands at most 52 digits in front of the last place, and exactly as many unless the
last place is the last of all. -/
theorem size_at_lastPlace (fine : 52 ≤ mantissa.log2 ∨ exponent ≤ -1074) (low : mantissa * 2 ^ exponent ≤ y)
    (high : y < (mantissa + 1) * 2 ^ exponent) :
    y < 2 ^ 53 * 2 ^ lastPlace mantissa exponent ∧
      (2 ^ 52 * 2 ^ lastPlace mantissa exponent ≤ y ∨ lastPlace mantissa exponent = -1074) := by
  constructor
  · have digits : ((mantissa : ℚ) + 1) ≤ 2 ^ (mantissa.log2 + 1) := by
      exact_mod_cast Nat.succ_le_of_lt Nat.lt_log2_self
    calc y < (mantissa + 1) * 2 ^ exponent := high
      _ ≤ 2 ^ (mantissa.log2 + 1) * 2 ^ exponent := by gcongr
      _ = 2 ^ ((mantissa.log2 + 1 : Nat) + exponent) := by rw [← zpow_natCast, ← zpow_add₀ two_ne_zero]
      _ ≤ 2 ^ ((53 : Nat) + lastPlace mantissa exponent) :=
        zpow_le_zpow_right₀ one_le_two (by unfold lastPlace; omega)
      _ = 2 ^ 53 * 2 ^ lastPlace mantissa exponent := by rw [zpow_add₀ two_ne_zero, zpow_natCast]
  · rw [or_iff_not_imp_right]
    intro above
    have some : mantissa ≠ 0 := by
      rintro rfl
      rw [Nat.log2_zero] at fine
      unfold lastPlace at above
      rw [Nat.log2_zero] at above
      omega
    have digits : (2 : ℚ) ^ mantissa.log2 ≤ mantissa := by exact_mod_cast Nat.log2_self_le some
    calc (2 : ℚ) ^ 52 * 2 ^ lastPlace mantissa exponent = 2 ^ ((52 : Nat) + lastPlace mantissa exponent) := by
          rw [zpow_add₀ two_ne_zero, zpow_natCast]
      _ = 2 ^ ((mantissa.log2 : Nat) + exponent) := by
          congr 1
          unfold lastPlace at above ⊢
          omega
      _ = 2 ^ mantissa.log2 * 2 ^ exponent := by rw [zpow_add₀ two_ne_zero, zpow_natCast]
      _ ≤ mantissa * 2 ^ exponent := by gcongr
      _ ≤ y := low

/-- What follows the rounding of the mantissa loses nothing: only a carry into one more digit is shifted. -/
theorem round_exactly {place : Int} (first : shiftToTargetExponent .binary64 mantissa exponent accuracy = (em, place))
    (least : -1074 ≤ place) (most : em.roundedMantissa ≤ 2 ^ 53)
    (normal : 2 ^ 52 ≤ em.roundedMantissa ∨ place = -1074) :
    Canonical (roundWithAccuracy .binary64 sign mantissa exponent accuracy) ∧
      size (roundWithAccuracy .binary64 sign mantissa exponent accuracy) = em.roundedMantissa * 2 ^ place := by
  unfold roundWithAccuracy
  rw [first]
  dsimp only
  rcases most.lt_or_eq with fits | carry
  · rw [shift_fitting fits least]
    dsimp only
    split
    · rename_i none
      exact ⟨.zero _, by simp [size, none]⟩
    · exact ⟨.finite fits least normal, rfl⟩
  · rw [carry, shift_carry least]
    refine ⟨.finite (by norm_num) (by omega) (.inl le_rfl), ?_⟩
    change ((2 ^ 52 : Nat) : ℚ) * 2 ^ (place + 1) = _
    rw [zpow_add_one₀ two_ne_zero]
    push_cast
    ring

private theorem rounded_of_stands (fine : 52 ≤ mantissa.log2 ∨ exponent ≤ -1074)
    (stands : Stands (.ofMantissaAndAccuracy mantissa accuracy) (y / 2 ^ exponent)) :
    Rounded y (roundWithAccuracy .binary64 sign mantissa exponent accuracy) := by
  have unit : (0 : ℚ) < 2 ^ exponent := by positivity
  obtain ⟨low, high⟩ := stands.floor
  rw [ofMantissaAndAccuracy_mantissa, le_div_iff₀ unit] at low
  rw [ofMantissaAndAccuracy_mantissa, div_lt_iff₀ unit] at high
  obtain ⟨below, leading⟩ := size_at_lastPlace fine low high
  obtain ⟨em, first, stands⟩ := stands_at_lastPlace fine stands
  generalize place_eq : lastPlace mantissa exponent = place at *
  have least : -1074 ≤ place := place_eq ▸ le_max_right _ _
  have unitPlace : (0 : ℚ) < 2 ^ place := by positivity
  have half := stands.rounded
  have near : |em.roundedMantissa * 2 ^ place - y| ≤ 2 ^ place / 2 := by
    calc |em.roundedMantissa * 2 ^ place - y| = |(em.roundedMantissa - y / 2 ^ place) * 2 ^ place| := by
          rw [sub_mul, div_mul_cancel₀ _ unitPlace.ne']
      _ = |em.roundedMantissa - y / 2 ^ place| * 2 ^ place := by rw [abs_mul, abs_of_pos unitPlace]
      _ ≤ 1 / 2 * 2 ^ place := by gcongr
      _ = 2 ^ place / 2 := by ring
  rw [abs_le] at half
  have most : em.roundedMantissa ≤ 2 ^ 53 := by
    have bound : y / 2 ^ place < 2 ^ 53 := (div_lt_iff₀ unitPlace).mpr below
    have bound : (em.roundedMantissa : ℚ) < 2 ^ 53 + 1 := by linarith
    exact Nat.lt_succ_iff.mp (by exact_mod_cast bound)
  have normal : 2 ^ 52 ≤ em.roundedMantissa ∨ place = -1074 := by
    refine leading.imp_left fun enough => ?_
    have bound : 2 ^ 52 ≤ y / 2 ^ place := (le_div_iff₀ unitPlace).mpr enough
    have bound : (2 ^ 52 : ℚ) < em.roundedMantissa + 1 := by linarith
    exact Nat.lt_succ_iff.mp (by exact_mod_cast bound)
  obtain ⟨canonical, sized⟩ := round_exactly first least most normal
  exact ⟨canonical, place, em.roundedMantissa, leading, least, sized, near⟩

/-- A rounded size is off by less than its 53rd binary digit, or by less than any double but 0. -/
theorem Rounded.error (rounded : Rounded y u) (least : 0 ≤ y) : |size u - y| ≤ y / 2 ^ 53 + 2 ^ (-1075 : Int) := by
  obtain ⟨place, number, leading, -, sized, near⟩ := rounded.digits
  rw [sized]
  refine near.trans ?_
  rcases leading with enough | rfl
  · have part : 2 ^ place / 2 ≤ y / 2 ^ 53 := by
      rw [div_le_div_iff₀ two_pos (by positivity)]
      linarith
    have rest : (0 : ℚ) ≤ 2 ^ (-1075 : Int) := zpow_nonneg zero_le_two _
    linarith
  · have last : (2 : ℚ) ^ (-1074 : Int) / 2 = 2 ^ (-1075 : Int) := (zpow_sub_one₀ two_ne_zero (-1074)).symm
    have rest : 0 ≤ y / 2 ^ 53 := by positivity
    linarith

/-- Of all whole numbers one that is at most a half away is the nearest. -/
theorem nearest_whole {number other : Int} (half : |(number : ℚ) - x| ≤ 1 / 2) :
    |(number : ℚ) - x| ≤ |(other : ℚ) - x| := by
  by_cases same : other = number
  · rw [same]
  · have apart : (1 : ℚ) ≤ |(other : ℚ) - number| := by
      have apart : 1 ≤ |other - number| := Int.one_le_abs (sub_ne_zero.mpr same)
      exact_mod_cast apart
    have triangle := abs_sub_abs_le_abs_sub ((other : ℚ) - number) (x - number)
    have turned : |x - number| = |(number : ℚ) - x| := abs_sub_comm _ _
    have split : (other : ℚ) - number - (x - number) = other - x := by ring
    rw [split, turned] at triangle
    linarith

/-- Nothing of the form that is packed is nearer. -/
theorem Rounded.nearest (rounded : Rounded y u) (canonical : Canonical v) : |size u - y| ≤ |size v - y| := by
  obtain ⟨place, number, leading, least, sized, near⟩ := rounded.digits
  have unit : (0 : ℚ) < 2 ^ place := by positivity
  have onGrid (other : Nat) : |size u - y| ≤ |other * 2 ^ place - y| := by
    rw [sized]
    have scaled (count : Nat) : |count * 2 ^ place - y| = |(count : Int) - y / 2 ^ place| * 2 ^ place := by
      rw [← abs_of_pos unit, ← abs_mul, abs_of_pos unit, sub_mul, div_mul_cancel₀ _ unit.ne']
      push_cast
      rfl
    rw [scaled, scaled]
    rw [scaled] at near
    refine mul_le_mul_of_nonneg_right (nearest_whole ?_) unit.le
    rw [← mul_le_mul_iff_left₀ unit]
    linarith
  cases canonical with
  | zero => simpa [size] using onGrid 0
  | @finite sign mantissa exponent some fits lower normal =>
    rcases le_or_gt place exponent with coarse | finer
    · have multiple : size (.finite sign mantissa exponent some) =
          (mantissa * 2 ^ (exponent - place).toNat : Nat) * 2 ^ place := by
        have places : exponent = (exponent - place).toNat + place := by omega
        push_cast
        rw [mul_assoc, ← zpow_natCast, ← zpow_add₀ two_ne_zero, ← places]
        rfl
      rw [multiple]
      exact onGrid _
    · have enough : 2 ^ 52 * 2 ^ place ≤ y := leading.resolve_right (by omega)
      have small : size (.finite sign mantissa exponent some) ≤ 2 ^ 52 * 2 ^ place := by
        have digits : (mantissa : ℚ) ≤ 2 ^ 53 := by exact_mod_cast fits.le
        have finer : (2 : ℚ) ^ exponent ≤ 2 ^ (place - 1) := zpow_le_zpow_right₀ one_le_two (by omega)
        calc (mantissa : ℚ) * 2 ^ exponent ≤ 2 ^ 53 * 2 ^ (place - 1) := by gcongr
          _ = 2 ^ 52 * 2 ^ place := by
            rw [zpow_sub_one₀ two_ne_zero]
            ring
      refine (onGrid (2 ^ 52)).trans ?_
      push_cast
      rw [abs_of_nonpos (by linarith), abs_of_nonpos (by linarith)]
      linarith

/-- A number of the form that is packed is rounded to itself. -/
theorem Rounded.exact (rounded : Rounded (size v) u) (canonical : Canonical v) : size u = size v := by
  have near := rounded.nearest canonical
  rw [sub_self, abs_zero] at near
  exact sub_eq_zero.mp (abs_nonpos_iff.mp near)

/-- Rounding does not pass a number of the form that is packed. -/
theorem Rounded.le_of_le (rounded : Rounded y u) (canonical : Canonical v) (least : size v ≤ y) : size v ≤ size u := by
  by_contra below
  have near := rounded.nearest canonical
  rw [abs_of_nonpos (by linarith), abs_of_nonpos (by linarith)] at near
  linarith

private theorem rounded_self (canonical : Canonical u) : Rounded (size u) u := by
  refine ⟨canonical, ?_⟩
  cases canonical with
  | zero =>
    refine ⟨-1074, 0, .inr rfl, le_rfl, by simp [size], ?_⟩
    rw [size_zero, Nat.cast_zero, zero_mul, sub_zero, abs_zero]
    positivity
  | @finite sign mantissa exponent some fits least normal =>
    refine ⟨exponent, mantissa, normal.imp_left fun enough => ?_, least, rfl, ?_⟩
    · have digits : (2 : ℚ) ^ 52 ≤ mantissa := by exact_mod_cast enough
      exact mul_le_mul_of_nonneg_right digits (by positivity)
    · rw [size_finite, sub_self, abs_zero]
      positivity

private theorem rounded_zero (sign : Sign) : Rounded 0 (.zero sign) := rounded_self (.zero sign)

theorem log2_mul_two_pow (some : 0 < mantissa) (places : Nat) :
    (mantissa * 2 ^ places).log2 = mantissa.log2 + places := by
  rw [Nat.log2_eq_iff (by positivity)]
  have low := Nat.log2_self_le some.ne'
  have high := Nat.lt_log2_self (n := mantissa)
  constructor
  · rw [pow_add]
    exact Nat.mul_le_mul_right _ low
  · rw [add_right_comm, pow_add]
    exact Nat.mul_lt_mul_of_pos_right high (by positivity)

private theorem decreaseExponent_eq {target : Int} : decreaseExponent mantissa exponent target =
    (mantissa * 2 ^ (exponent - target).toNat, exponent - (exponent - target).toNat) := by
  rw [decreaseExponent, Nat.shiftLeft_eq]

/-- More digits at a smaller exponent are the same number. -/
theorem same_size (mantissa : Nat) (exponent : Int) (places : Nat) :
    ((mantissa * 2 ^ places : Nat) : ℚ) * 2 ^ (exponent - places) = mantissa * 2 ^ exponent := by
  push_cast
  rw [mul_assoc, ← zpow_natCast, ← zpow_add₀ two_ne_zero, add_sub_cancel]

/-- Of a number that is known exactly as many digits are added in front of rounding as it has too few. -/
theorem rounded_round (some : 0 < mantissa) :
    Rounded (mantissa * 2 ^ exponent) (round .binary64 sign mantissa exponent) := by
  unfold UnpackedFloat.round
  rw [targetExponent_eq]
  dsimp only
  rw [decreaseExponent_eq]
  generalize count : (exponent - lastPlace mantissa exponent).toNat = places
  refine rounded_of_stands ?_ (.exact ?_)
  · rw [log2_mul_two_pow some]
    unfold lastPlace at count
    omega
  · rw [div_eq_iff (by positivity), same_size]

private theorem rounded_normalize (number : Nat) (exponent : Int) :
    Rounded (number * 2 ^ exponent) (normalize .binary64 number exponent .positive) := by
  unfold UnpackedFloat.normalize
  rcases Nat.eq_zero_or_pos number with rfl | some
  · rw [Nat.cast_zero, zero_mul]
    exact rounded_zero _
  · rw [Int.compare_eq_gt.mpr (Int.natCast_pos.mpr some)]
    exact rounded_round some

theorem rounded_ofNat (number : Nat) : Rounded number (ofNat .binary64 number) := by
  have exact := rounded_normalize number 0
  rwa [zpow_zero, mul_one] at exact

theorem rounded_add (first : Canonical u) (second : Canonical v) (firstSign : DoubleSigns.NotBelow u)
    (secondSign : DoubleSigns.NotBelow v) : Rounded (size u + size v) (add .binary64 u v) := by
  cases first with
  | zero =>
    rw [size_zero, zero_add]
    cases second with
    | zero =>
      unfold UnpackedFloat.add
      dsimp only
      split <;> exact rounded_zero _
    | finite fits least normal => exact rounded_self (.finite fits least normal)
  | @finite _ m e some fits least normal =>
    cases second with
    | zero =>
      rw [size_zero, add_zero]
      exact rounded_self (.finite fits least normal)
    | @finite _ n f other =>
      cases firstSign
      cases secondSign
      have aligned (number : Nat) (g : Int) (order : min e f ≤ g) :
          ((number * 2 ^ (g - min e f).toNat : Nat) : ℚ) * 2 ^ min e f = number * 2 ^ g := by
        have same := same_size number g (g - min e f).toNat
        rwa [Int.toNat_of_nonneg (sub_nonneg.mpr order), sub_sub_cancel] at same
      have sum := rounded_normalize (m * 2 ^ (e - min e f).toNat + n * 2 ^ (f - min e f).toNat) (min e f)
      rw [Nat.cast_add, add_mul, aligned m e (min_le_left _ _), aligned n f (min_le_right _ _)] at sum
      simp only [UnpackedFloat.add, decreaseExponent_eq, Sign.apply]
      rwa [← Int.natCast_add]

theorem rounded_mul (first : Canonical u) (second : Canonical v) : Rounded (size u * size v) (mul .binary64 u v) := by
  cases first with
  | zero =>
    rw [size_zero, zero_mul]
    cases second with
    | zero => exact rounded_zero _
    | finite => exact rounded_zero _
  | @finite _ m e some _ _ normal =>
    cases second with
    | zero =>
      rw [size_zero, mul_zero]
      exact rounded_zero _
    | @finite _ n f other _ _ otherNormal =>
      refine rounded_of_stands ?_ (.exact ?_)
      · rw [Nat.le_log2 (by positivity)]
        rcases normal with enough | rfl
        · exact .inl (enough.trans (Nat.le_mul_of_pos_right m other))
        · rcases otherNormal with enough | rfl
          · exact .inl (enough.trans (Nat.le_mul_of_pos_left n some))
          · exact .inr (by norm_num)
      · rw [size_finite, size_finite, zpow_add₀ two_ne_zero, mul_mul_mul_comm,
          mul_div_cancel_right₀ _ (by positivity), Nat.cast_mul]

/-- The remainder of a division says what stands behind the last digit of the quotient. -/
theorem stands_quotient {divisor : Nat} (some : 0 < divisor) (number : Nat) :
    Stands (.ofMantissaAndAccuracy (number / divisor) (accuracyOfFraction (number % divisor) divisor))
      (number / divisor) := by
  have divided : (0 : ℚ) < divisor := by exact_mod_cast some
  have whole : (number : ℚ) = (number / divisor : Nat) * divisor + (number % divisor : Nat) := by
    exact_mod_cast (Nat.div_add_mod' number divisor).symm
  have less : ((number % divisor : Nat) : ℚ) < divisor := by exact_mod_cast Nat.mod_lt number some
  generalize number / divisor = quotient at whole ⊢
  generalize number % divisor = rest at whole less ⊢
  have parts : (number : ℚ) / divisor = quotient + rest / divisor := by
    rw [whole]
    field_simp
  rw [parts]
  unfold accuracyOfFraction
  split
  · rename_i none
    exact .exact (by rw [none, Nat.cast_zero, zero_div, add_zero])
  · rename_i left
    have positive : (0 : ℚ) < rest / divisor := div_pos (by exact_mod_cast Nat.pos_of_ne_zero left) divided
    have below : (rest : ℚ) / divisor < 1 := (div_lt_one divided).mpr less
    rcases order : compare (2 * rest) divisor with _ | _ | _
    · have order : (rest : ℚ) / divisor < 1 / 2 := by
        rw [div_lt_div_iff₀ divided two_pos, one_mul, mul_comm]
        exact_mod_cast Nat.compare_eq_lt.mp order
      exact .above (by linarith) (by linarith)
    · have order : (rest : ℚ) / divisor = 1 / 2 := by
        rw [div_eq_div_iff divided.ne' two_ne_zero, one_mul, mul_comm]
        exact_mod_cast Nat.compare_eq_eq.mp order
      exact .middle (by linarith)
    · have order : (1 : ℚ) / 2 < rest / divisor := by
        rw [div_lt_div_iff₀ two_pos divided, one_mul, mul_comm]
        exact_mod_cast Nat.compare_eq_gt.mp order
      exact .below (by linarith) (by linarith)

/-- The quotient has all the digits that rounding needs. -/
theorem quotient_fine {dividend divisor : Nat} {first second target : Int} (some : 0 < dividend) (other : 0 < divisor)
    (target_eq : target = min (first - second)
      (Format.binary64.targetExponent (totalExponent dividend first - totalExponent divisor second))) :
    52 ≤ (dividend * 2 ^ (first - second - target).toNat / divisor).log2 ∨ target ≤ -1074 := by
  rw [or_iff_not_imp_right]
  intro above
  simp only [Format.targetExponent, totalExponent, Format.mantissaBits, Format.minExponent] at target_eq
  norm_num at target_eq
  have places : divisor.log2 + 53 ≤ dividend.log2 + (first - second - target).toNat := by omega
  have enough : 2 ^ 52 ≤ dividend * 2 ^ (first - second - target).toNat / divisor := by
    rw [Nat.le_div_iff_mul_le other]
    calc 2 ^ 52 * divisor ≤ 2 ^ 52 * 2 ^ (divisor.log2 + 1) := Nat.mul_le_mul_left _ Nat.lt_log2_self.le
      _ = 2 ^ (divisor.log2 + 53) := by rw [← pow_add]; congr 1; omega
      _ ≤ 2 ^ (dividend.log2 + (first - second - target).toNat) := Nat.pow_le_pow_right two_pos places
      _ = 2 ^ dividend.log2 * 2 ^ (first - second - target).toNat := pow_add _ _ _
      _ ≤ dividend * 2 ^ (first - second - target).toNat := Nat.mul_le_mul_right _ (Nat.log2_self_le some.ne')
  have positive : 0 < dividend * 2 ^ (first - second - target).toNat / divisor := Nat.two_pow_pos 52 |>.trans_le enough
  exact (Nat.le_log2 positive.ne').mpr enough

theorem rounded_div (first : Canonical u) (second : Canonical v) (some : 0 < size v) :
    Rounded (size u / size v) (div .binary64 u v) := by
  cases second with
  | zero => exact absurd some (lt_irrefl _)
  | @finite _ n f other _ _ _ =>
    cases first with
    | zero =>
      rw [size_zero, zero_div]
      exact rounded_zero _
    | @finite _ m e positive _ _ _ =>
      simp only [UnpackedFloat.div, divCore, Nat.shiftLeft_eq]
      generalize target_eq : min (e - f)
        (Format.binary64.targetExponent (totalExponent m e - totalExponent n f)) = target
      refine rounded_of_stands (quotient_fine positive other target_eq.symm) ?_
      have places : ((e - f - target).toNat : Int) = e - f - target :=
        Int.toNat_of_nonneg (sub_nonneg.mpr (target_eq ▸ min_le_left _ _))
      have scaled : (m : ℚ) * 2 ^ e / (n * 2 ^ f) / 2 ^ target = (m * 2 ^ (e - f - target).toNat : Nat) / n := by
        push_cast
        rw [← zpow_natCast, places, zpow_sub₀ two_ne_zero, zpow_sub₀ two_ne_zero]
        field_simp
      rw [size_finite, size_finite, scaled]
      exact stands_quotient other _

end Timetable.Proofs.Rounding
