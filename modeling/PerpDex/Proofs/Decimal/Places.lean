import PerpDex.Proofs.Decimal.Rounding

/-! The places kept beside an integer part: so few that the sum needs no rounding, and the more the
fewer digits the integer part has. -/
namespace PerpDex

theorem digitCount_le_iff {n k : Nat} : digitCount n ≤ k ↔ n < 10 ^ k := by
  induction k generalizing n with
  | zero =>
    rw [digitCount]
    split <;> simp_all
  | succ k ih =>
    rw [digitCount]
    split
    · rename_i zero
      subst zero
      simp
    · rw [Nat.add_le_add_iff_right, ih, Nat.pow_succ]
      exact Nat.div_lt_iff_lt_mul (by decide)

theorem natAbs_lt_pow_digitCount (n : Int) : n.natAbs < 10 ^ digitCount n.natAbs :=
  digitCount_le_iff.mp le_rfl

theorem keptPlaces_le (n : Int) : keptPlaces n ≤ 20 := Nat.min_le_left ..

/-- There is room for `places` places exactly where the integer part leaves them of 28 digits. -/
theorem le_keptPlaces_iff {n : Int} {places : Nat} (pos : 0 < places) (few : places ≤ 20) :
    places ≤ keptPlaces n ↔ n.natAbs < 10 ^ (28 - places) := by
  rw [← digitCount_le_iff, keptPlaces]
  omega

theorem half_add_half (places : Nat) :
    1 / (2 * 10 ^ places) + 1 / (2 * 10 ^ places) = 1 / (10 : ℚ) ^ places := by
  field_simp
  norm_num

/-- The more places, the less is half of the last one. -/
theorem half_place_le {few many : Nat} (le : few ≤ many) :
    1 / (2 * 10 ^ many) ≤ 1 / (2 * (10 : ℚ) ^ few) := by
  have more : (10 : ℚ) ^ few ≤ 10 ^ many := pow_le_pow_right₀ (by norm_num) le
  exact one_div_le_one_div_of_le (by positivity) (by linarith)

theorem eq_of_places_near {a b : Int} (places : Nat)
    (near : |(a : ℚ) / 10 ^ places - b / 10 ^ places| < 1 / 10 ^ places) : a = b := by
  refine eq_of_abs_sub_lt_one ?_
  rwa [lt_div_iff₀ (by positivity), abs_mul_ten_pow, sub_mul, div_mul_cancel₀ _ (by positivity),
    div_mul_cancel₀ _ (by positivity)] at near

/-- A fraction is less than one, and rounds to between zero and one. -/
theorem places_mem {places unit f : Nat} {error : ℚ} {k : Int} (few : places ≤ 20) (below : f < unit)
    (small : error < 1 / (2 * 10 ^ 20))
    (near : |(k : ℚ) / 10 ^ places - f / unit| ≤ 1 / (2 * 10 ^ places) + error) :
    0 ≤ k ∧ k ≤ 10 ^ places := by
  have power : (0 : ℚ) < 10 ^ places := by positivity
  have smaller := small.trans_le (half_place_le few)
  have halves := half_add_half places
  have nonneg : (0 : ℚ) ≤ f / unit := by positivity
  have lt : (f : ℚ) / unit < 1 := by
    rw [div_lt_one (by exact_mod_cast Nat.zero_lt_of_lt below)]
    exact_mod_cast below
  obtain ⟨lower, upper⟩ := abs_le.mp near
  constructor
  · have above : -1 / (10 : ℚ) ^ places < k / 10 ^ places := by
      rw [neg_div]
      linarith
    rw [div_lt_div_iff_of_pos_right power] at above
    have above : -1 < k := by exact_mod_cast above
    omega
  · have under : (k : ℚ) / 10 ^ places < (10 ^ places + 1) / 10 ^ places := by
      rw [add_div, div_self power.ne']
      linarith
    rw [div_lt_div_iff_of_pos_right power] at under
    have under : k < 10 ^ places + 1 := by exact_mod_cast under
    omega

/-- Integer part and places together are written without rounding. -/
theorem Decimal.value_add?_places {integer places : Decimal} {n k : Int} (digits : n.natAbs < 10 ^ 28)
    (whole : integer.value = n) (value : places.value = k / 10 ^ keptPlaces n) (nonneg : 0 ≤ k)
    (le : k ≤ 10 ^ keptPlaces n) :
    ∃ z, add? integer places = some z ∧ z.value = n + k / 10 ^ keptPlaces n := by
  have power : (0 : ℚ) < 10 ^ keptPlaces n := by positivity
  have sum : digitCount n.natAbs + keptPlaces n ≤ 28 := by
    have few := digitCount_le_iff.mpr digits
    unfold keptPlaces
    omega
  have fraction_nonneg : 0 ≤ (k : ℚ) / 10 ^ keptPlaces n :=
    div_nonneg (by exact_mod_cast nonneg) power.le
  have fraction_le : (k : ℚ) / 10 ^ keptPlaces n ≤ 1 := by
    rw [div_le_one power]
    exact_mod_cast le
  have integer_lt : |(n : ℚ)| + 1 ≤ 10 ^ digitCount n.natAbs := by
    rw [← Int.cast_abs, Int.abs_eq_natAbs]
    exact_mod_cast natAbs_lt_pow_digitCount n
  have room : |integer.value + places.value| * 10 ^ keptPlaces n ≤ 2 ^ 96 - 1 := by
    have triangle := abs_add_le (n : ℚ) (k / 10 ^ keptPlaces n)
    rw [abs_of_nonneg fraction_nonneg] at triangle
    rw [whole, value]
    calc |(n : ℚ) + k / 10 ^ keptPlaces n| * 10 ^ keptPlaces n
        ≤ 10 ^ digitCount n.natAbs * 10 ^ keptPlaces n :=
          mul_le_mul_of_nonneg_right (by linarith) power.le
      _ ≤ 10 ^ 28 := by
        rw [← pow_add]
        exact pow_le_pow_right₀ (by norm_num) sum
      _ ≤ 2 ^ 96 - 1 := by norm_num
  obtain ⟨z, found, rounds⟩ := exists_add? ((keptPlaces_le n).trans (by decide)) room
  refine ⟨z, found, ?_⟩
  rw [rounds.exact (n * 10 ^ keptPlaces n + k), whole, value]
  rw [whole, value]
  push_cast
  field_simp

theorem Decimal.exists_places_of_whole {integer : Decimal} {n : Int} {error : ℚ} (unit : Nat)
    (whole : integer.value = n) (nonneg : 0 ≤ error) :
    ∃ k : Int, integer.value = n + k / 10 ^ keptPlaces n ∧
      |(k : ℚ) / 10 ^ keptPlaces n - (0 : Nat) / unit| ≤ 1 / (2 * 10 ^ keptPlaces n) + error := by
  refine ⟨0, by rw [whole, Int.cast_zero, zero_div, add_zero], ?_⟩
  rw [Int.cast_zero, Nat.cast_zero, zero_div, zero_div, sub_zero, abs_zero]
  positivity

/-- Of a quotient near to a fraction the places are kept beside the integer part, and no more of it
is lost in the sum. -/
theorem Decimal.exists_places {integer quotient : Decimal} {n : Int} {f unit : Nat} {error : ℚ}
    (digits : n.natAbs < 10 ^ 28) (whole : integer.value = n) (below : f < unit)
    (small : error < 1 / (2 * 10 ^ 20)) (near : |quotient.value - f / unit| ≤ error) :
    ∃ (k : Int) (v : Decimal), add? integer (quotient.roundPlaces (keptPlaces n)) = some v ∧
      v.value = n + k / 10 ^ keptPlaces n ∧
      |(k : ℚ) / 10 ^ keptPlaces n - f / unit| ≤ 1 / (2 * 10 ^ keptPlaces n) + error := by
  obtain ⟨k, value, rounded⟩ := value_roundPlaces (keptPlaces n) quotient
  have near := (abs_sub_le _ quotient.value _).trans (add_le_add rounded near)
  obtain ⟨nonneg, le⟩ := places_mem (keptPlaces_le n) below small near
  obtain ⟨v, sum, total⟩ := value_add?_places digits whole value nonneg le
  exact ⟨k, v, sum, total, near⟩

end PerpDex
