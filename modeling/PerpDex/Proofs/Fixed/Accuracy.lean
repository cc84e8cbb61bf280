import Mathlib.Data.Nat.Digits.Lemmas
import PerpDex.Proofs.Decimal.Values
import PerpDex.Proofs.Fixed.Signed

/-! How far signed fixed point numbers and decimals are apart. A decimal is as near to the number it
is read from as the places beside the integer part allow, and decimals stand in the order of the
numbers. A number written from a decimal is off by little more than half a part, or it is the end of
the range that the decimal lies beyond. -/
namespace PerpDex

theorem digitCount_eq_length_digits (n : Nat) : digitCount n = (Nat.digits 10 n).length := by
  refine eq_of_forall_ge_iff fun k => ?_
  rw [digitCount_le_iff, Nat.digits_length_le_iff (by decide)]

/-- A decimal that is no integer lies below the next one by a unit of its last place at least. -/
theorem Decimal.fract_value_le (v : Decimal) : Int.fract v.value ≤ 1 - 1 / 10 ^ v.scale := by
  have power : (0 : ℚ) < 10 ^ v.scale := by positivity
  have places : Int.fract v.value * 10 ^ v.scale = (v.coeff - ⌊v.value⌋ * 10 ^ v.scale : Int) := by
    rw [Int.fract, sub_mul, value_eq, div_mul_cancel₀ _ power.ne']
    push_cast
    rfl
  have below : Int.fract v.value * 10 ^ v.scale < 1 * 10 ^ v.scale :=
    mul_lt_mul_of_pos_right (Int.fract_lt_one _) power
  rw [places, one_mul] at below
  have below : v.coeff - ⌊v.value⌋ * 10 ^ v.scale + 1 ≤ 10 ^ v.scale := by exact_mod_cast below
  have below : ((v.coeff - ⌊v.value⌋ * 10 ^ v.scale : Int) : ℚ) + 1 ≤ 10 ^ v.scale := by
    exact_mod_cast below
  rw [le_sub_iff_add_le, ← mul_le_mul_iff_left₀ power, add_mul, places,
    div_mul_cancel₀ _ power.ne', one_mul]
  exact below

namespace SignedFixed

variable {x y : SignedFixed}

def value (x : SignedFixed) : ℚ := x.bits.toInt / 2 ^ 48

theorem bits_eq (x : SignedFixed) : x.bits.toInt = x.integer * 2 ^ 48 + x.fraction := by
  unfold integer fraction
  omega

theorem value_eq (x : SignedFixed) : x.value = x.integer + x.fraction / 2 ^ 48 := by
  have unit : ((2 ^ 48 : Int) : ℚ) = 2 ^ 48 := by norm_num
  rw [value, bits_eq, Int.cast_add, Int.cast_mul, Int.cast_natCast, unit, add_div,
    mul_div_cancel_right₀ _ (by norm_num)]

theorem floor_value (x : SignedFixed) : ⌊x.value⌋ = x.integer := by
  have below : (x.fraction : ℚ) < 2 ^ 48 := by exact_mod_cast x.fraction_lt
  rw [Int.floor_eq_iff, value_eq, add_lt_add_iff_left, div_lt_one (by positivity)]
  exact ⟨le_add_of_nonneg_right (by positivity), below⟩

theorem toDecimal_mem (x : SignedFixed) :
    x.integer ≤ x.toDecimal.value ∧ x.toDecimal.value ≤ x.integer + 1 := by
  have power : (0 : ℚ) < 10 ^ keptPlaces x.integer := by positivity
  obtain ⟨nonneg, le⟩ := x.shown_mem
  rw [value_toDecimal, le_add_iff_nonneg_right, add_le_add_iff_left, div_le_one power]
  exact ⟨div_nonneg (by exact_mod_cast nonneg) power.le, by exact_mod_cast le⟩

/-- Numbers with one integer part keep as many places and are rounded alike; an integer part that is
greater by one makes up for all places. -/
theorem toDecimal_mono (le : x.bits.toInt ≤ y.bits.toInt) :
    x.toDecimal.value ≤ y.toDecimal.value := by
  have integer_le : x.integer ≤ y.integer := Int.ediv_le_ediv (by decide) le
  rcases integer_le.lt_or_eq with less | same
  · have next : (x.integer : ℚ) + 1 ≤ y.integer := by exact_mod_cast less
    exact x.toDecimal_mem.2.trans (next.trans y.toDecimal_mem.1)
  · have fraction : x.fraction ≤ y.fraction := by
      rw [bits_eq, bits_eq, same] at le
      omega
    have shown_le : x.shown ≤ y.shown := by
      unfold shown
      rw [same]
      refine roundHalfEven_mono (by positivity) (roundHalfEven_mono (by decide) ?_)
      omega
    have shown_le : (x.shown : ℚ) ≤ y.shown := by exact_mod_cast shown_le
    rw [value_toDecimal, value_toDecimal, same]
    gcongr

theorem toDecimal_error (x : SignedFixed) :
    |x.toDecimal.value - x.value| ≤ (1 / 10 ^ keptPlaces x.integer + 1 / 10 ^ 28) / 2 := by
  have unit : ((2 ^ 48 : Nat) : ℚ) = 2 ^ 48 := by norm_num
  have halves : (1 / 10 ^ keptPlaces x.integer + 1 / 10 ^ 28 : ℚ) / 2 =
      1 / (2 * 10 ^ keptPlaces x.integer) + 1 / (2 * 10 ^ 28) := by
    field_simp
  rw [value_toDecimal, value_eq, add_sub_add_left_eq_sub, ← unit, halves]
  exact x.shown_error

theorem toDecimal_of_dvd (whole : (2 ^ 48 : Int) ∣ x.bits.toInt) :
    x.toDecimal.value = x.value := by
  have none : x.fraction = 0 := by
    unfold fraction
    omega
  rw [value_toDecimal, value_eq, shown_of_whole none, none]
  simp

/-- Near zero there are 20 places, and the least part of one reaches beyond them. -/
theorem toDecimal_eq_zero_iff (x : SignedFixed) : x.toDecimal.value = 0 ↔ x.bits = 0 := by
  constructor
  · intro zero
    have places : keptPlaces x.integer = 20 := by
      obtain ⟨low, high⟩ := x.toDecimal_mem
      rw [zero] at low high
      have low : x.integer ≤ 0 := by exact_mod_cast low
      have high : 0 ≤ x.integer + 1 := by exact_mod_cast high
      refine le_antisymm (keptPlaces_le _) ((le_keptPlaces_iff (by decide) le_rfl).mpr ?_)
      omega
    have error := x.toDecimal_error
    rw [zero, zero_sub, abs_neg, places, value, abs_div, div_le_iff₀ (by positivity)] at error
    have none : x.bits.toInt = 0 := by
      refine eq_of_abs_sub_lt_one ?_
      rw [Int.cast_zero, sub_zero]
      exact error.trans_lt (by norm_num)
    exact BitVec.eq_of_toInt_eq (none.trans rfl)
  · intro zero
    have whole : (2 ^ 48 : Int) ∣ x.bits.toInt := by simp [zero]
    rw [toDecimal_of_dvd whole, value, zero]
    simp

/-- Reading a number as a decimal always succeeds. The decimal has no more places than 28 digits
leave beside the integer part and 20 in all, is off by little more than half of the last one, is
exact for integers, and is zero for zero only. Decimals stand in the order of the numbers they are
read from. -/
theorem toDecimal_near_and_ordered :
    (∀ x : SignedFixed,
      let places := min 20 (28 - (Nat.digits 10 ⌊x.value⌋.natAbs).length)
      x.toDecimal? = some x.toDecimal ∧
        (∃ k : Int, x.toDecimal.value = k / 10 ^ places) ∧
        |x.toDecimal.value - x.value| ≤ (1 / 10 ^ places + 1 / 10 ^ 28) / 2 ∧
        ((2 ^ 48 : Int) ∣ x.bits.toInt → x.toDecimal.value = x.value) ∧
        (x.toDecimal.value = 0 ↔ x.bits = 0)) ∧
      ∀ x y : SignedFixed, x.bits.toInt ≤ y.bits.toInt →
        x.toDecimal.value ≤ y.toDecimal.value := by
  refine ⟨fun x => ?_, fun _ _ => toDecimal_mono⟩
  have places : min 20 (28 - (Nat.digits 10 ⌊x.value⌋.natAbs).length) = keptPlaces x.integer := by
    rw [floor_value, ← digitCount_eq_length_digits, keptPlaces]
  rw [places]
  refine ⟨(Option.some_get _).symm, ⟨x.integer * 10 ^ keptPlaces x.integer + x.shown, ?_⟩,
    x.toDecimal_error, toDecimal_of_dvd, x.toDecimal_eq_zero_iff⟩
  rw [value_toDecimal]
  push_cast
  field_simp

/-- An integer below zero, and the number just below zero. -/
theorem toDecimal_near_and_ordered_below_zero :
    let three : SignedFixed := ⟨BitVec.ofInt 128 (-3 * 2 ^ 48)⟩
    let part : SignedFixed := ⟨BitVec.ofInt 128 (-1)⟩
    ((2 ^ 48 : Int) ∣ three.bits.toInt ∧ three.toDecimal.value = three.value) ∧
      three.bits.toInt ≤ part.bits.toInt ∧ three.toDecimal.value ≤ part.toDecimal.value := by
  intro three part
  obtain ⟨each, ordered⟩ := toDecimal_near_and_ordered
  have whole : (2 ^ 48 : Int) ∣ three.bits.toInt := by decide
  have le : three.bits.toInt ≤ part.bits.toInt := by decide
  exact ⟨⟨whole, (each three).2.2.2.1 whole⟩, le, ordered three part le⟩

variable {v : Decimal} {m : Int}

/-- Beside the greatest integer part a decimal has so few places that its fraction does not round up
to one. -/
theorem parts_lt_of_top (top : ⌊v.value⌋ = 2 ^ 79 - 1)
    (near : |m - Int.fract v.value * (2 ^ 48 : Nat)| ≤ 1 / 2 + 1 / (2 * 10 ^ 14)) :
    m < 2 ^ 48 := by
  have large : (2 ^ 79 - 1 : ℚ) ≤ |v.value| := by
    have floor_le := Int.floor_le v.value
    rw [top] at floor_le
    push_cast at floor_le
    linarith [le_abs_self v.value]
  have few : (10 : ℚ) ^ v.scale ≤ 2 ^ 18 := by
    have room := v.abs_value_mul_pow_le
    have scaled := mul_le_mul_of_nonneg_right large (show (0 : ℚ) ≤ 10 ^ v.scale by positivity)
    linarith
  have short : (1 / 2 ^ 18 : ℚ) ≤ 1 / 10 ^ v.scale :=
    one_div_le_one_div_of_le (by positivity) few
  have below := v.fract_value_le
  have upper := (abs_le.mp near).2
  have lt : (m : ℚ) < 2 ^ 48 := by
    push_cast at upper
    linarith
  exact_mod_cast lt

/-- Inside the range the bits are those of the integer part and the parts next to the fraction: they
are never saturated. -/
theorem exists_bits_ofDecimal (low : -2 ^ 79 ≤ v.value) (high : v.value < 2 ^ 79) :
    ∃ m : Int, |m - Int.fract v.value * (2 ^ 48 : Nat)| ≤ 1 / 2 + 1 / (2 * 10 ^ 14) ∧
      (ofDecimal v).bits.toInt = ⌊v.value⌋ * 2 ^ 48 + m := by
  have nonneg := Int.fract_nonneg v.value
  have lt_one := Int.fract_lt_one v.value
  have floor_low : -(2 ^ 79) ≤ ⌊v.value⌋ := by
    rw [Int.le_floor]
    exact_mod_cast low
  have floor_high : ⌊v.value⌋ < 2 ^ 79 := by
    rw [Int.floor_lt]
    exact_mod_cast high
  obtain ⟨m, near, written⟩ := exists_written v ⌊v.value⌋ (Int.fract v.value)
    (Int.floor_add_fract _).symm nonneg lt_one floor_low floor_high
  obtain ⟨lower, upper⟩ := abs_le.mp near
  push_cast at lower upper
  have m_nonneg : 0 ≤ m := by
    have above : (-1 : ℚ) < m := by linarith
    have above : -1 < m := by exact_mod_cast above
    omega
  have m_le : m ≤ 2 ^ 48 := by
    have under : (m : ℚ) < 2 ^ 48 + 1 := by linarith
    have under : m < 2 ^ 48 + 1 := by exact_mod_cast under
    omega
  have top : ⌊v.value⌋ = 2 ^ 79 - 1 → m < 2 ^ 48 := fun top => parts_lt_of_top top near
  refine ⟨m, near, ?_⟩
  rw [written]
  exact toInt_saturate (by omega) (by omega)

theorem ofDecimal_error (low : -2 ^ 79 ≤ v.value) (high : v.value < 2 ^ 79) :
    |(ofDecimal v).value - v.value| ≤ 1 / 2 ^ 49 + 1 / 10 ^ 28 := by
  obtain ⟨m, near, bits⟩ := exists_bits_ofDecimal low high
  have scaled : (ofDecimal v).value - v.value = (m - Int.fract v.value * 2 ^ 48) / 2 ^ 48 := by
    rw [value, bits, Int.fract]
    push_cast
    ring
  push_cast at near
  rw [scaled, abs_div, div_le_iff₀ (by positivity)]
  refine near.trans ?_
  norm_num

theorem ofDecimal_of_integer (low : -2 ^ 79 ≤ v.value) (high : v.value < 2 ^ 79) {n : Int}
    (whole : v.value = n) : (ofDecimal v).value = v.value := by
  obtain ⟨m, near, bits⟩ := exists_bits_ofDecimal low high
  have none : m = 0 := by
    refine eq_of_abs_sub_lt_one ?_
    rw [whole, Int.fract_intCast, zero_mul] at near
    push_cast
    linarith
  rw [value, bits, none, whole, Int.floor_intCast]
  push_cast
  norm_num

/-- Writing a decimal as a number always succeeds. Decimals from one end of the range on give the
greatest number, those beyond the other end the least; all between are off by little more than half
a part, and integers are exact. -/
theorem ofDecimal_near_or_saturated (v : Decimal) :
    ofDecimal? v = some (ofDecimal v) ∧
      (2 ^ 79 ≤ v.value → ofDecimal v = greatest) ∧
      (v.value < -2 ^ 79 → ofDecimal v = least) ∧
      (-2 ^ 79 ≤ v.value → v.value < 2 ^ 79 →
        |(ofDecimal v).value - v.value| ≤ 1 / 2 ^ 49 + 1 / 10 ^ 28 ∧
        ∀ n : Int, v.value = n → (ofDecimal v).value = v.value) :=
  ⟨(Option.some_get _).symm, ofDecimal_of_le, ofDecimal_of_lt, fun low high =>
    ⟨ofDecimal_error low high, fun _ whole => ofDecimal_of_integer low high whole⟩⟩

/-- The two ends of the range, a decimal beyond the lower one, and one that needs a fraction. -/
theorem ofDecimal_near_or_saturated_at_ends :
    let upper := Decimal.ofInt (2 ^ 79) (by decide)
    let beyond := Decimal.ofInt (-2 ^ 80) (by decide)
    let lower := Decimal.ofInt (-2 ^ 79) (by decide)
    let fifth : Decimal := { coeff := -12, scale := 1 }
    ofDecimal upper = greatest ∧ ofDecimal beyond = least ∧
      (ofDecimal lower).value = lower.value ∧
      |(ofDecimal fifth).value - fifth.value| ≤ 1 / 2 ^ 49 + 1 / 10 ^ 28 := by
  intro upper beyond lower fifth
  have upper_value : upper.value = (2 ^ 79 : Int) := Decimal.value_ofInt ..
  have beyond_value : beyond.value = (-2 ^ 80 : Int) := Decimal.value_ofInt ..
  have lower_value : lower.value = (-2 ^ 79 : Int) := Decimal.value_ofInt ..
  have fifth_value : fifth.value = -12 / 10 := by simp [Decimal.value_eq, fifth]
  refine ⟨(ofDecimal_near_or_saturated upper).2.1 ?_,
    (ofDecimal_near_or_saturated beyond).2.2.1 ?_,
    ((ofDecimal_near_or_saturated lower).2.2.2 ?_ ?_).2 _ lower_value,
    ((ofDecimal_near_or_saturated fifth).2.2.2 ?_ ?_).1⟩
  · rw [upper_value]
    norm_num
  · rw [beyond_value]
    norm_num
  · rw [lower_value]
    norm_num
  · rw [lower_value]
    norm_num
  · rw [fifth_value]
    norm_num
  · rw [fifth_value]
    norm_num

end SignedFixed
end PerpDex
