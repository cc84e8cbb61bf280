import Mathlib.Data.Rat.Floor
import Mathlib.Tactic.FieldSimp
import Mathlib.Tactic.Linarith
import Mathlib.Tactic.NormNum
import Mathlib.Tactic.Positivity
import Mathlib.Tactic.Ring
import PerpDex.Decimal

/-! The error of decimal arithmetic. A result that has room for some number of places is off by at
most half a unit of the last of them, and is exact if they are enough to write it down. -/
namespace PerpDex

theorem roundHalfEven_bounds (n : Int) {d : Nat} (pos : 0 < d) :
    -(d : Int) ≤ 2 * (roundHalfEven n d * d - n) ∧ 2 * (roundHalfEven n d * d - n) ≤ d := by
  have split := Int.mul_ediv_add_emod n d
  have nonneg := Int.emod_nonneg n (b := d) (by omega)
  have lt := Int.emod_lt_of_pos n (b := d) (by omega)
  have next : (n / d + 1) * (d : Int) = d * (n / d) + d := by ring
  have same : n / d * (d : Int) = d * (n / d) := Int.mul_comm ..
  unfold roundHalfEven
  dsimp only
  split_ifs <;> simp only [next, same] <;> omega

/-- Numbers that were rounded past each other would both lie halfway between the results. -/
theorem roundHalfEven_mono {n m : Int} {d : Nat} (pos : 0 < d) (le : n ≤ m) :
    roundHalfEven n d ≤ roundHalfEven m d := by
  obtain ⟨-, upper⟩ := roundHalfEven_bounds n pos
  obtain ⟨lower, -⟩ := roundHalfEven_bounds m pos
  by_contra past
  have apart : (roundHalfEven m d + 1) * d ≤ roundHalfEven n d * d :=
    mul_le_mul_of_nonneg_right (Int.not_le.mp past) (Int.natCast_nonneg d)
  obtain rfl : n = m := by linarith
  exact past le_rfl

/-- Rounding moves no number by more than a half. -/
theorem roundHalfEven_error (n : Int) {d : Nat} (pos : 0 < d) :
    |(roundHalfEven n d : ℚ) - n / d| ≤ 1 / 2 := by
  obtain ⟨lower, upper⟩ := roundHalfEven_bounds n pos
  have lower : -(d : ℚ) ≤ 2 * (roundHalfEven n d * d - n) := by exact_mod_cast lower
  have upper : 2 * (roundHalfEven n d * d - n) ≤ (d : ℚ) := by exact_mod_cast upper
  have positive : (0 : ℚ) < d := by exact_mod_cast pos
  have scaled : (roundHalfEven n d : ℚ) - n / d = (roundHalfEven n d * d - n) / d := by field_simp
  rw [scaled, abs_le, le_div_iff₀ positive, div_le_iff₀ positive]
  constructor <;> linarith

theorem eq_of_abs_sub_lt_one {a b : Int} (near : |(a : ℚ) - b| < 1) : a = b := by
  have apart : |a - b| < 1 := by exact_mod_cast near
  exact Int.sub_eq_zero.mp (Int.abs_lt_one_iff.mp apart)

theorem roundHalfEven_eq {n m : Int} {d : Nat} (pos : 0 < d) (near : |(n : ℚ) / d - m| < 1 / 2) :
    roundHalfEven n d = m := by
  refine eq_of_abs_sub_lt_one ?_
  calc |(roundHalfEven n d : ℚ) - m|
      ≤ |(roundHalfEven n d : ℚ) - n / d| + |(n : ℚ) / d - m| := abs_sub_le ..
    _ < 1 := by linarith [roundHalfEven_error n pos]

theorem abs_mul_ten_pow (q : ℚ) (scale : Nat) : |q| * 10 ^ scale = |q * 10 ^ scale| := by
  rw [abs_mul, abs_of_pos (show (0 : ℚ) < 10 ^ scale by positivity)]

/-- What is rounded in units of the last of `places` places is off by half of that place. -/
theorem abs_rounded_places_le {n : Int} {d places : Nat} {q : ℚ} (pos : 0 < d)
    (scaled : q * 10 ^ places = n / d) :
    |(roundHalfEven n d : ℚ) / 10 ^ places - q| ≤ 1 / (2 * 10 ^ places) := by
  have error := roundHalfEven_error n pos
  rw [le_div_iff₀ (by positivity), mul_left_comm, abs_mul_ten_pow, sub_mul,
    div_mul_cancel₀ _ (by positivity), scaled]
  linarith

namespace Decimal

theorem value_eq (x : Decimal) : x.value = x.coeff / 10 ^ x.scale := by
  rw [value, Rat.mkRat_eq_div]
  push_cast
  rfl

theorem coeff_nonneg {x : Decimal} (nonneg : 0 ≤ x.value) : 0 ≤ x.coeff := by
  rw [value_eq, le_div_iff₀ (by positivity), zero_mul] at nonneg
  exact_mod_cast nonneg

/-- Where `places` places fit, at least as many are kept. -/
theorem exists_fit {n : Int} {d places scale : Nat} (le : scale ≤ 28) (pos : 0 < d)
    (places_le : places ≤ scale) (fits : n.natAbs * 10 ^ places ≤ (2 ^ 96 - 1) * d) :
    ∃ x, fit n d scale le = some x ∧ places ≤ x.scale ∧
      x.coeff = roundHalfEven (n * 10 ^ x.scale) d := by
  have small : (roundHalfEven (n * 10 ^ places) d).natAbs < 2 ^ 96 := by
    have bound : (roundHalfEven (n * 10 ^ places) d).natAbs ≤ 2 ^ 96 - 1 :=
      natAbs_roundHalfEven_le pos (by rwa [natAbs_mul_pow])
    omega
  induction scale with
  | zero =>
    obtain rfl := Nat.le_zero.mp places_le
    have small : (roundHalfEven n d).natAbs < 2 ^ 96 := by simpa using small
    exact ⟨_, by rw [fit, dif_pos small], le_rfl, by simp⟩
  | succ scale ih =>
    unfold fit
    split
    · exact ⟨_, rfl, places_le, rfl⟩
    · rename_i large
      refine ih (by omega) (Nat.le_of_lt_succ (Nat.lt_of_le_of_ne places_le ?_))
      rintro rfl
      exact large small

/-- A decimal that stands for `q`: no farther off than half a unit of the last of `places` places,
and exact if these are enough. -/
structure Rounds (places : Nat) (q : ℚ) (x : Decimal) : Prop where
  error : |x.value - q| ≤ 1 / (2 * 10 ^ places)
  exact : ∀ m : Int, q = m / 10 ^ places → x.value = q

theorem exists_ofRatio? {n : Int} {d places : Nat} (pos : 0 < d) (le : places ≤ 28)
    (room : |(n : ℚ) / d| * 10 ^ places ≤ 2 ^ 96 - 1) :
    ∃ x, ofRatio? n d = some x ∧ Rounds places (n / d) x := by
  have positive : (0 : ℚ) < d := by exact_mod_cast pos
  have fits : n.natAbs * 10 ^ places ≤ (2 ^ 96 - 1) * d := by
    have limit : ((2 ^ 96 - 1 : Nat) : ℚ) = 2 ^ 96 - 1 := by norm_num
    rw [abs_div, Nat.abs_cast, div_mul_eq_mul_div, div_le_iff₀ positive, ← Int.cast_abs,
      Int.abs_eq_natAbs, ← limit] at room
    rw [← Nat.cast_le (α := ℚ), Nat.cast_mul, Nat.cast_mul, Nat.cast_pow]
    exact room
  obtain ⟨x, found, kept, coeff⟩ := exists_fit (by omega) pos le fits
  have near : |x.value - n / d| ≤ 1 / (2 * 10 ^ x.scale) := by
    rw [value_eq, coeff]
    refine abs_rounded_places_le pos ?_
    push_cast
    ring
  refine ⟨x, found, near.trans ?_, fun m whole => ?_⟩
  · gcongr
    norm_num
  · -- At the scale of the result the quotient is an integer, which rounding does not move.
    have integral : ((n * 10 ^ x.scale : Int) : ℚ) / d = (m * 10 ^ (x.scale - places) : Int) := by
      have split : (10 : ℚ) ^ x.scale = 10 ^ (x.scale - places) * 10 ^ places := by
        rw [← pow_add, Nat.sub_add_cancel kept]
      push_cast
      rw [mul_div_right_comm, whole, split]
      field_simp
    have rounded : roundHalfEven (n * 10 ^ x.scale) d = m * 10 ^ (x.scale - places) := by
      refine roundHalfEven_eq pos ?_
      rw [integral]
      norm_num
    rw [value_eq, coeff, rounded, ← integral]
    push_cast
    field_simp

variable {x y : Decimal} {places : Nat}

theorem exists_add? (le : places ≤ 28) (room : |x.value + y.value| * 10 ^ places ≤ 2 ^ 96 - 1) :
    ∃ z, add? x y = some z ∧ Rounds places (x.value + y.value) z := by
  have ratio : x.value + y.value = ((x.coeff * 10 ^ y.scale + y.coeff * 10 ^ x.scale : Int) : ℚ) /
      ((10 ^ (x.scale + y.scale) : Nat) : ℚ) := by
    rw [value_eq, value_eq]
    push_cast
    rw [pow_add]
    field_simp
  rw [ratio] at room ⊢
  exact exists_ofRatio? (Nat.pow_pos (by decide)) le room

theorem exists_sub? (le : places ≤ 28) (room : |x.value - y.value| * 10 ^ places ≤ 2 ^ 96 - 1) :
    ∃ z, sub? x y = some z ∧ Rounds places (x.value - y.value) z := by
  have ratio : x.value - y.value = ((x.coeff * 10 ^ y.scale - y.coeff * 10 ^ x.scale : Int) : ℚ) /
      ((10 ^ (x.scale + y.scale) : Nat) : ℚ) := by
    rw [value_eq, value_eq]
    push_cast
    rw [pow_add]
    field_simp
  rw [ratio] at room ⊢
  exact exists_ofRatio? (Nat.pow_pos (by decide)) le room

theorem exists_mul? (le : places ≤ 28) (room : |x.value * y.value| * 10 ^ places ≤ 2 ^ 96 - 1) :
    ∃ z, mul? x y = some z ∧ Rounds places (x.value * y.value) z := by
  have ratio : x.value * y.value =
      ((x.coeff * y.coeff : Int) : ℚ) / ((10 ^ (x.scale + y.scale) : Nat) : ℚ) := by
    rw [value_eq, value_eq]
    push_cast
    rw [pow_add]
    field_simp
  rw [ratio] at room ⊢
  exact exists_ofRatio? (Nat.pow_pos (by decide)) le room

@[simp] theorem value_ofInt (n : Int) (h : n.natAbs < 2 ^ 96) : (ofInt n h).value = n := by
  rw [value_eq, ofInt]
  norm_num

theorem exists_div? {n : Nat} {h : (n : Int).natAbs < 2 ^ 96} (pos : 0 < n) (le : places ≤ 28)
    (room : |x.value / n| * 10 ^ places ≤ 2 ^ 96 - 1) :
    ∃ z, div? x (ofInt n h) = some z ∧ Rounds places (x.value / n) z := by
  have nonzero : (n : Int) ≠ 0 := by omega
  have ratio : x.value / n = ((x.coeff * 10 ^ 0 * (n : Int).sign : Int) : ℚ) /
      ((10 ^ x.scale * (n : Int).natAbs : Nat) : ℚ) := by
    rw [value_eq, Int.sign_eq_one_of_pos (by omega), Int.natAbs_natCast]
    push_cast
    field_simp
  rw [ratio] at room ⊢
  rw [div?, ofInt, if_neg nonzero]
  exact exists_ofRatio? (Nat.mul_pos (Nat.pow_pos (by decide)) (by simpa using pos)) le room

/-- The quotient of a fraction has all 28 places. -/
theorem exists_quotient (f unit : Nat) (hf : (f : Int).natAbs < 2 ^ 96)
    (hu : (unit : Int).natAbs < 2 ^ 96) (pos : 0 < unit) (le : f ≤ unit) :
    ∃ z, div? (ofInt f hf) (ofInt unit hu) = some z ∧ z.scale = 28 ∧
      z.coeff = roundHalfEven (f * 10 ^ 28) unit := by
  have nonzero : unit ≠ 0 := pos.ne'
  have fits : (f : Int).natAbs * 10 ^ 28 ≤ (2 ^ 96 - 1) * unit := by
    rw [Int.natAbs_natCast]
    omega
  obtain ⟨z, found, all, coeff⟩ := exists_fit le_rfl pos le_rfl fits
  have scale : z.scale = 28 := le_antisymm z.scale_le all
  refine ⟨z, ?_, scale, by rw [coeff, scale]⟩
  have sign : (unit : Int).sign = 1 := Int.sign_eq_one_of_pos (by omega)
  simpa [div?, ofInt, nonzero, sign, ofRatio?] using found

theorem floor_eq (x : Decimal) : x.floor = ⌊x.value⌋ := by
  have whole : x.value = (x.coeff : ℚ) / ((10 ^ x.scale : Nat) : ℚ) := by
    rw [value_eq]
    push_cast
    rfl
  rw [whole, Rat.floor_intCast_div_natCast, floor]

/-- The fraction of a decimal needs no more places than the decimal. -/
theorem fraction?_eq (x : Decimal) : ∃ y, x.fraction? = some y ∧ y.value = x.value - ⌊x.value⌋ := by
  have difference : x.value - (ofInt x.floor x.natAbs_floor_lt).value = x.value - ⌊x.value⌋ := by
    rw [value_ofInt, floor_eq]
  have room : |x.value - (ofInt x.floor x.natAbs_floor_lt).value| * 10 ^ x.scale ≤ 2 ^ 96 - 1 := by
    have less := Int.fract_lt_one x.value
    have power : (10 : ℚ) ^ x.scale ≤ 10 ^ 28 := pow_le_pow_right₀ (by norm_num) x.scale_le
    rw [difference, ← Int.fract, abs_of_nonneg (Int.fract_nonneg _)]
    calc Int.fract x.value * 10 ^ x.scale
        ≤ 1 * 10 ^ x.scale := mul_le_mul_of_nonneg_right less.le (by positivity)
      _ ≤ 2 ^ 96 - 1 := by linarith
  obtain ⟨y, found, rounds⟩ := exists_sub? x.scale_le room
  rw [difference] at rounds
  refine ⟨y, found, rounds.exact (x.coeff - x.floor * 10 ^ x.scale) ?_⟩
  rw [← floor_eq, value_eq]
  push_cast
  field_simp

/-- The integer part and the fraction of a number are its only such parts. -/
theorem parts_unique {x : Decimal} {n : Int} {q : ℚ} (value : x.value = n + q) (nonneg : 0 ≤ q)
    (lt : q < 1) : x.floor = n ∧ ∃ y, x.fraction? = some y ∧ y.value = q := by
  have floor : ⌊x.value⌋ = n := by
    rw [Int.floor_eq_iff, value]
    constructor <;> linarith
  obtain ⟨y, found, rest⟩ := x.fraction?_eq
  refine ⟨by rw [floor_eq, floor], y, found, ?_⟩
  rw [rest, floor, value, add_sub_cancel_left]

/-- Rounding to places gives a number with so many places, no farther off than half a unit of the
last one. -/
theorem value_roundPlaces (places : Nat) (x : Decimal) :
    ∃ k : Int, (x.roundPlaces places).value = k / 10 ^ places ∧
      |(k : ℚ) / 10 ^ places - x.value| ≤ 1 / (2 * 10 ^ places) := by
  unfold roundPlaces
  split
  · rename_i enough
    have split : (10 : ℚ) ^ places = 10 ^ (places - x.scale) * 10 ^ x.scale := by
      rw [← pow_add, Nat.sub_add_cancel enough]
    have same : x.value = ((x.coeff * 10 ^ (places - x.scale) : Int) : ℚ) / 10 ^ places := by
      rw [value_eq, split]
      push_cast
      field_simp
    refine ⟨_, same, ?_⟩
    rw [← same, sub_self, abs_zero]
    positivity
  · rename_i many
    have split : (10 : ℚ) ^ x.scale = 10 ^ (x.scale - places) * 10 ^ places := by
      rw [← pow_add, Nat.sub_add_cancel (by omega)]
    refine ⟨_, value_eq _, abs_rounded_places_le (by positivity) ?_⟩
    rw [value_eq, split]
    push_cast
    field_simp

theorem round_error (x : Decimal) : |(x.round : ℚ) - x.value| ≤ 1 / 2 := by
  have error := roundHalfEven_error x.coeff (d := 10 ^ x.scale) (Nat.pow_pos (by decide))
  rw [value_eq, round]
  push_cast at error
  exact error

end Decimal
end PerpDex
