import PerpDex.Proofs.Decimal.Rounding

/-! Decimal arithmetic on values. An operation takes the exact rational result to the decimal that
stands for it, so it depends on the values of its operands only. A result that some decimal has is
exact, an integer is never moved, no result crosses an integer, and all others are off by less than
one part in `10 ^ 28` of their size and one more unit. -/
namespace PerpDex

theorem roundHalfEven_cancel (n : Int) (d : Nat) {k : Nat} (pos : 0 < k) :
    roundHalfEven (n * k) (d * k) = roundHalfEven n d := by
  have positive : (0 : Int) < k := by omega
  have quotient : n * k / ((d * k : Nat) : Int) = n / d := by
    rw [Nat.cast_mul, Int.mul_ediv_mul_of_pos_left _ _ positive]
  have remainder : n * k % ((d * k : Nat) : Int) = n % d * k := by
    rw [Nat.cast_mul, Int.mul_comm n, Int.mul_comm (d : Int), Int.mul_emod_mul_of_pos _ _ positive,
      Int.mul_comm]
  have below : 2 * (n % d * k) < ((d * k : Nat) : Int) ↔ 2 * (n % d) < d := by
    rw [Nat.cast_mul, ← mul_assoc]
    exact mul_lt_mul_iff_left₀ positive
  have above : ((d * k : Nat) : Int) < 2 * (n % d * k) ↔ (d : Int) < 2 * (n % d) := by
    rw [Nat.cast_mul, ← mul_assoc]
    exact mul_lt_mul_iff_left₀ positive
  simp only [roundHalfEven, quotient, remainder, below, above]

/-- Rounding depends on the ratio only. -/
theorem roundHalfEven_congr {n n' : Int} {d d' : Nat} (pos : 0 < d) (pos' : 0 < d')
    (same : n * d' = n' * d) : roundHalfEven n d = roundHalfEven n' d' := by
  rw [← roundHalfEven_cancel n d pos', ← roundHalfEven_cancel n' d' pos, same, Nat.mul_comm]

theorem le_natAbs_roundHalfEven {n : Int} {d c : Nat} (pos : 0 < d) (h : c * d ≤ n.natAbs) :
    c ≤ (roundHalfEven n d).natAbs := by
  have cast : ((c * d : Nat) : Int) = (c : Int) * d := Int.natCast_mul c d
  rcases Int.natAbs_eq n with nonneg | nonpos
  · have := le_roundHalfEven (n := n) (c := c) pos (by omega)
    omega
  · have := roundHalfEven_le (n := n) (c := -(c : Int)) pos (by rw [Int.neg_mul]; omega)
    omega

namespace Decimal

theorem fit_congr {n n' : Int} {d d' scale : Nat} (pos : 0 < d) (pos' : 0 < d')
    (same : n * d' = n' * d) (le : scale ≤ 28) : fit n d scale le = fit n' d' scale le := by
  induction scale with
  | zero => simp only [fit, roundHalfEven_congr pos pos' same]
  | succ scale ih =>
    have scaled : n * 10 ^ (scale + 1) * d' = n' * 10 ^ (scale + 1) * d := by
      rw [mul_right_comm, same, mul_right_comm]
    simp only [fit, roundHalfEven_congr pos pos' scaled, ih]

/-- The places of a result are as many as fit: with one more its digits would not. -/
theorem fit_eq_some {n : Int} {d scale : Nat} {le : scale ≤ 28} {x : Decimal}
    (found : fit n d scale le = some x) :
    x.scale ≤ scale ∧ x.coeff = roundHalfEven (n * 10 ^ x.scale) d ∧
      (x.scale < scale → 2 ^ 96 ≤ (roundHalfEven (n * 10 ^ (x.scale + 1)) d).natAbs) := by
  induction scale with
  | zero =>
    unfold fit at found
    split at found
    · cases found
      simp
    · cases found
  | succ scale ih =>
    unfold fit at found
    split at found
    · cases found
      simp
    · rename_i large
      obtain ⟨fewer, coeff, most⟩ := ih found
      refine ⟨by omega, coeff, fun less => ?_⟩
      by_cases same : x.scale = scale
      · rw [same]
        omega
      · exact most (by omega)

def rounded? (q : ℚ) : Option Decimal := ofRatio? q.num q.den

theorem ofRatio?_eq_rounded? {n : Int} {d : Nat} (pos : 0 < d) :
    ofRatio? n d = rounded? (n / d) := by
  refine fit_congr pos (Rat.den_pos _) ?_ _
  have nonzero : (d : ℚ) ≠ 0 := by exact_mod_cast pos.ne'
  have ratio := Rat.num_div_den ((n : ℚ) / d)
  rw [div_eq_div_iff (by exact_mod_cast (Rat.den_pos _).ne') nonzero] at ratio
  exact_mod_cast ratio.symm

variable {x y z : Decimal} {q : ℚ}

theorem mul?_eq_rounded? : mul? x y = rounded? (x.value * y.value) := by
  rw [mul?, ofRatio?_eq_rounded? (Nat.pow_pos (by decide)), value_eq, value_eq, div_mul_div_comm,
    ← pow_add]
  push_cast
  rfl

theorem div?_eq_rounded? (nonzero : y.value ≠ 0) : div? x y = rounded? (x.value / y.value) := by
  have divisor : y.coeff ≠ 0 := by
    rintro zero
    apply nonzero
    simp [value_eq, zero]
  have size : (y.coeff.natAbs : ℚ) = y.coeff.sign * y.coeff := by
    rw [Nat.cast_natAbs, ← Int.sign_mul_self_eq_abs]
    push_cast
    rfl
  have sign : (y.coeff.sign : ℚ) ≠ 0 := by exact_mod_cast mt Int.sign_eq_zero_iff_zero.mp divisor
  have cast : (y.coeff : ℚ) ≠ 0 := by exact_mod_cast divisor
  rw [div?, if_neg divisor,
    ofRatio?_eq_rounded? (Nat.mul_pos (Nat.pow_pos (by decide)) (Int.natAbs_pos.mpr divisor))]
  congr 1
  push_cast
  rw [size, value_eq, value_eq]
  field_simp

theorem abs_value_mul_pow_le (x : Decimal) : |x.value| * 10 ^ x.scale ≤ 2 ^ 96 - 1 := by
  have coeff : |x.value| * 10 ^ x.scale = (x.coeff.natAbs : ℚ) := by
    rw [value_eq, abs_mul_ten_pow, div_mul_cancel₀ _ (by positivity), Nat.cast_natAbs, Int.cast_abs]
  have lt : (x.coeff.natAbs : ℚ) + 1 ≤ 2 ^ 96 := by exact_mod_cast x.coeff_lt
  linarith

theorem abs_value_le (x : Decimal) : |x.value| ≤ 2 ^ 96 - 1 := by
  have one : (1 : ℚ) ≤ 10 ^ x.scale := one_le_pow₀ (by norm_num)
  exact (le_mul_of_one_le_right (abs_nonneg _) one).trans x.abs_value_mul_pow_le

theorem exists_rounded? {places : Nat} (le : places ≤ 28) (room : |q| * 10 ^ places ≤ 2 ^ 96 - 1) :
    ∃ z, rounded? q = some z ∧ Rounds places q z := by
  rw [← Rat.num_div_den q] at room
  have found := exists_ofRatio? (Rat.den_pos q) le room
  rwa [Rat.num_div_den] at found

/-- Every number within 96 bits has a decimal. -/
theorem rounded?_ne_none (room : |q| ≤ 2 ^ 96 - 1) : rounded? q ≠ none := by
  have scaled : |q| * 10 ^ 0 ≤ 2 ^ 96 - 1 := by rwa [pow_zero, mul_one]
  obtain ⟨z, found, -⟩ := exists_rounded? (Nat.zero_le _) scaled
  simp [found]

/-- A decimal stands for itself. -/
theorem exists_rounded?_value (x : Decimal) : ∃ z, rounded? x.value = some z ∧ z.value = x.value := by
  obtain ⟨z, found, rounds⟩ := exists_rounded? x.scale_le x.abs_value_mul_pow_le
  exact ⟨z, found, rounds.exact x.coeff x.value_eq⟩

theorem value_of_rounded? (found : rounded? x.value = some z) : z.value = x.value := by
  obtain ⟨same, given, value⟩ := exists_rounded?_value x
  obtain rfl := Option.some.inj (given.symm.trans found)
  exact value

/-- An integer is not rounded. -/
theorem value_of_rounded?_intCast {m : Int} (found : rounded? m = some z) : z.value = m := by
  obtain ⟨-, coeff, -⟩ := fit_eq_some found
  have whole : roundHalfEven (m * 10 ^ z.scale) 1 = m * 10 ^ z.scale :=
    roundHalfEven_eq one_pos (by simp)
  rw [Rat.num_intCast, Rat.den_intCast, whole] at coeff
  rw [value_eq, coeff]
  push_cast
  exact mul_div_cancel_right₀ _ (by positivity)

/-- Moving the point to the right loses nothing. -/
theorem value_of_rounded?_mul_pow {places : Nat} (found : rounded? (x.value * 10 ^ places) = some z) :
    z.value = x.value * 10 ^ places := by
  by_cases enough : places ≤ x.scale
  · have same : (Decimal.mk x.coeff (x.scale - places) x.coeff_lt ((Nat.sub_le ..).trans x.scale_le)).value =
        x.value * 10 ^ places := by
      have split : (10 : ℚ) ^ x.scale = 10 ^ (x.scale - places) * 10 ^ places := by
        rw [← pow_add, Nat.sub_add_cancel enough]
      rw [value_eq, value_eq, split]
      field_simp
    rw [← same] at found ⊢
    exact value_of_rounded? found
  · have same : ((x.coeff * 10 ^ (places - x.scale) : Int) : ℚ) = x.value * 10 ^ places := by
      have split : (10 : ℚ) ^ places = 10 ^ (places - x.scale) * 10 ^ x.scale := by
        rw [← pow_add, Nat.sub_add_cancel (by omega)]
      rw [value_eq, split]
      push_cast
      field_simp
    rw [← same] at found ⊢
    exact value_of_rounded?_intCast found

/-- Rounding does not lead below an integer that the exact size is not below. -/
theorem le_abs_value {c : Nat} (le : c ≤ |q|) (found : rounded? q = some z) : (c : ℚ) ≤ |z.value| := by
  obtain ⟨-, coeff, -⟩ := fit_eq_some found
  have size : |q| = (q.num.natAbs : ℚ) / q.den := by
    rw [Rat.abs_def, Rat.divInt_eq_div, Int.cast_natCast, Int.cast_natCast]
  have enough : c * q.den ≤ q.num.natAbs := by
    rw [size, le_div_iff₀ (by exact_mod_cast Rat.den_pos q)] at le
    exact_mod_cast le
  have kept : c * 10 ^ z.scale ≤ z.coeff.natAbs := by
    rw [coeff]
    apply le_natAbs_roundHalfEven (Rat.den_pos q)
    rw [natAbs_mul_pow, mul_right_comm]
    exact Nat.mul_le_mul_right _ enough
  rw [value_eq, abs_div, abs_of_pos (show (0 : ℚ) < 10 ^ z.scale by positivity),
    le_div_iff₀ (by positivity), ← Int.cast_abs, Int.abs_eq_natAbs]
  exact_mod_cast kept

/-- The error of a result is below one part in `10 ^ 28`, but for half a unit of the last place. -/
theorem abs_value_sub_le (found : rounded? q = some z) : |z.value - q| ≤ (1 / 2 + |q|) / 10 ^ 28 := by
  obtain ⟨-, coeff, most⟩ := fit_eq_some found
  have positive : (0 : ℚ) < q.den := by exact_mod_cast Rat.den_pos q
  have scaled (places : Nat) : ((q.num * 10 ^ places : Int) : ℚ) / q.den = q * 10 ^ places := by
    push_cast
    rw [mul_div_right_comm, Rat.num_div_den]
  have near : |z.value - q| * 10 ^ z.scale ≤ 1 / 2 := by
    have error := roundHalfEven_error (q.num * 10 ^ z.scale) (Rat.den_pos q)
    rw [← coeff, scaled] at error
    rw [abs_mul_ten_pow, sub_mul, value_eq, div_mul_cancel₀ _ (by positivity)]
    exact error
  have nonneg := abs_nonneg q
  rw [le_div_iff₀ (by positivity)]
  by_cases all : z.scale = 28
  · rw [all] at near
    linarith
  · -- One more place would not fit, so half a unit of the last place is little beside the number.
    have few : z.scale < 28 := lt_of_le_of_ne z.scale_le all
    have large : (2 ^ 96 : ℚ) ≤ |(roundHalfEven (q.num * 10 ^ (z.scale + 1)) q.den : ℚ)| := by
      rw [← Int.cast_abs, Int.abs_eq_natAbs]
      exact_mod_cast most few
    have error := roundHalfEven_error (q.num * 10 ^ (z.scale + 1)) (Rat.den_pos q)
    rw [scaled] at error
    have size : (2 ^ 96 : ℚ) - 1 / 2 ≤ |q| * 10 ^ z.scale * 10 := by
      have triangle := abs_sub_abs_le_abs_sub
        (roundHalfEven (q.num * 10 ^ (z.scale + 1)) q.den : ℚ) (q * 10 ^ (z.scale + 1))
      have split : |q * 10 ^ (z.scale + 1)| = |q| * 10 ^ z.scale * 10 := by
        rw [← abs_mul_ten_pow, pow_succ, mul_assoc]
      linarith
    have share : |z.value - q| * 10 ^ 28 * 10 ^ z.scale ≤ |q| * 10 ^ z.scale := by
      calc |z.value - q| * 10 ^ 28 * 10 ^ z.scale
          = |z.value - q| * 10 ^ z.scale * 10 ^ 28 := by ring
        _ ≤ 1 / 2 * 10 ^ 28 := mul_le_mul_of_nonneg_right near (by positivity)
        _ ≤ |q| * 10 ^ z.scale := by linarith
    have := le_of_mul_le_mul_right share (by positivity)
    linarith

theorem abs_trunc_le (x : Decimal) : |(x.trunc : ℚ)| ≤ |x.value| := by
  have power : ((10 ^ x.scale : Nat) : Int).natAbs = 10 ^ x.scale := Int.natAbs_natCast _
  have le : x.trunc.natAbs * 10 ^ x.scale ≤ x.coeff.natAbs := by
    rw [trunc, Int.natAbs_tdiv, power]
    exact Nat.div_mul_le_self ..
  rw [value_eq, abs_div, abs_of_pos (show (0 : ℚ) < 10 ^ x.scale by positivity),
    le_div_iff₀ (by positivity), ← Int.cast_abs, ← Int.cast_abs, Int.abs_eq_natAbs,
    Int.abs_eq_natAbs]
  exact_mod_cast le

theorem abs_value_sub_trunc_lt (x : Decimal) : |x.value - x.trunc| < 1 := by
  have pos : (0 : ℚ) < 10 ^ x.scale := by positivity
  have split := Int.mul_tdiv_add_tmod x.coeff (10 ^ x.scale : Nat)
  have rest : (x.value - x.trunc) * 10 ^ x.scale = x.coeff.tmod (10 ^ x.scale : Nat) := by
    have cast : (10 : ℚ) ^ x.scale * x.trunc + x.coeff.tmod (10 ^ x.scale : Nat) = x.coeff := by
      exact_mod_cast split
    rw [sub_mul, value_eq, div_mul_cancel₀ _ pos.ne']
    linarith
  have lt : (x.coeff.tmod (10 ^ x.scale : Nat)).natAbs < 10 ^ x.scale := by
    rw [Int.natAbs_tmod, Int.natAbs_natCast]
    exact Nat.mod_lt _ (Nat.pow_pos (by decide))
  rw [← mul_lt_mul_iff_left₀ pos, abs_mul_ten_pow, rest, one_mul, ← Int.cast_abs,
    Int.abs_eq_natAbs]
  exact_mod_cast lt

/-- The integer part is the only integer within less than one that is not larger in size. -/
theorem trunc_eq_iff {n : Int} : x.trunc = n ↔ |(n : ℚ)| ≤ |x.value| ∧ |x.value - n| < 1 := by
  constructor
  · rintro rfl
    exact ⟨abs_trunc_le x, abs_value_sub_trunc_lt x⟩
  · rintro ⟨le, near⟩
    have le' := abs_trunc_le x
    have near' := abs_value_sub_trunc_lt x
    rw [abs_lt] at near near'
    apply eq_of_abs_sub_lt_one
    rw [abs_lt]
    rcases abs_cases x.value with ⟨size, -⟩ | ⟨size, -⟩ <;> rw [size, abs_le] at le le' <;>
      constructor <;> linarith

/-- Short of an integer by less than one, a number has the integer part next to it. -/
theorem trunc_of_short {n : Int} (near : |x.value - n| < 1) (short : |x.value| < |(n : ℚ)|) :
    x.trunc = n - n.sign := by
  rw [trunc_eq_iff]
  rw [abs_lt] at near
  rcases lt_trichotomy n 0 with neg | rfl | pos
  · have le : (n : ℚ) ≤ -1 := by exact_mod_cast Int.le_sub_one_of_lt neg
    rw [abs_of_neg (show (n : ℚ) < 0 by linarith), abs_of_neg (by linarith)] at short
    rw [Int.sign_eq_neg_one_of_neg neg, abs_of_neg (a := x.value) (by linarith)]
    push_cast
    rw [abs_le, abs_lt]
    refine ⟨⟨?_, ?_⟩, ?_, ?_⟩ <;> linarith
  · rw [Int.cast_zero, abs_zero] at short
    exact absurd short (not_lt.mpr (abs_nonneg _))
  · have le : (1 : ℚ) ≤ n := by exact_mod_cast pos
    rw [abs_of_pos (show (0 : ℚ) < n by linarith), abs_of_pos (by linarith)] at short
    rw [Int.sign_eq_one_of_pos pos, abs_of_pos (a := x.value) (by linarith)]
    push_cast
    rw [abs_le, abs_lt]
    refine ⟨⟨?_, ?_⟩, ?_, ?_⟩ <;> linarith

end Decimal
end PerpDex
