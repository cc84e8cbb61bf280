import PerpDex.Proofs.Decimal.Places

/-! Binary fixed point numbers turned into decimals and back. Beside an integer part a decimal has
room for some places, and what comes back depends on the finer of two grids: where the places are
finer than the binary parts, the number is the same again, and where they are coarser, its decimal
is. Both are proved for any kind of fixed point numbers from the errors of its two directions. -/
namespace PerpDex

/-- Errors are the same whether counted in ones or in parts of one. -/
theorem abs_sub_div_le_iff {a f unit error : ℚ} (positive : 0 < unit) :
    |a - f / unit| ≤ error ↔ |a * unit - f| ≤ error * unit := by
  have scaled : a * unit - f = (a - f / unit) * unit := by field_simp
  rw [scaled, abs_mul, abs_of_pos positive, mul_le_mul_iff_of_pos_right positive]

/-- A kind of fixed point numbers, with what its two directions are known to give. -/
structure FixedFormat (Number : Type) where
  /-- The number of parts that make one. -/
  unit : Nat
  /-- Integer parts reach from `low` to below `high`. -/
  low : Int
  high : Int
  integer : Number → Int
  fraction : Number → Nat
  /-- How far the quotient is off that is rounded to places. -/
  readingError : ℚ
  /-- How far the product is off that is rounded to parts. -/
  writingError : ℚ
  toDecimal : Number → Decimal
  ofDecimal : Decimal → Number
  integer_mem : ∀ x, low ≤ integer x ∧ integer x < high
  fraction_lt : ∀ x, fraction x < unit
  ext : ∀ x y, integer x = integer y → fraction x = fraction y → x = y
  reading_nonneg : 0 ≤ readingError
  reading_lt : readingError < 1 / (2 * 10 ^ 20)
  writing_nonneg : 0 ≤ writingError
  writing_lt : writingError < 1 / 2
  exists_places : ∀ x, ∃ k : Int,
    (toDecimal x).value = integer x + k / 10 ^ keptPlaces (integer x) ∧
      |(k : ℚ) / 10 ^ keptPlaces (integer x) - fraction x / unit| ≤
        1 / (2 * 10 ^ keptPlaces (integer x)) + readingError
  exists_parts : ∀ (v : Decimal) (n : Int) (q : ℚ), v.value = n + q → 0 ≤ q → q < 1 → low ≤ n →
    n < high → ∃ m : Int, |m - q * unit| ≤ 1 / 2 + writingError ∧
      (0 ≤ m → m < unit → integer (ofDecimal v) = n ∧ (fraction (ofDecimal v) : Int) = m)

namespace FixedFormat

variable {Number : Type} (format : FixedFormat Number)

theorem unit_pos (x : Number) : (0 : ℚ) < format.unit := by
  exact_mod_cast Nat.zero_lt_of_lt (format.fraction_lt x)

/-- The decimal of a number without a fraction is the integer part. -/
theorem value_of_fraction_eq_zero {x : Number} (whole : format.fraction x = 0) :
    (format.toDecimal x).value = format.integer x := by
  obtain ⟨k, value, near⟩ := format.exists_places x
  have smaller := format.reading_lt.trans_le (half_place_le (keptPlaces_le (format.integer x)))
  have halves := half_add_half (keptPlaces (format.integer x))
  have zero : k = 0 := by
    refine eq_of_places_near (keptPlaces (format.integer x)) ?_
    rw [whole] at near
    push_cast at near ⊢
    rw [zero_div] at near ⊢
    linarith
  rw [value, zero, Int.cast_zero, zero_div, add_zero]

/-- An integer in range comes back as that integer. -/
theorem value_recode_of_integer {v : Decimal} {n : Int} (value : v.value = n) (low : format.low ≤ n)
    (high : n < format.high) : (format.toDecimal (format.ofDecimal v)).value = n := by
  obtain ⟨m, near, parts⟩ :=
    format.exists_parts v n 0 (by rw [value, add_zero]) le_rfl one_pos low high
  have zero : m = 0 := by
    refine eq_of_abs_sub_lt_one ?_
    rw [zero_mul] at near
    push_cast
    linarith [format.writing_lt]
  subst zero
  have positive := format.unit_pos (format.ofDecimal v)
  obtain ⟨integer, fraction⟩ := parts le_rfl (by exact_mod_cast positive)
  rw [format.value_of_fraction_eq_zero (by exact_mod_cast fraction), integer]

variable {x : Number}

/-- Where the places are fine enough to tell neighbouring parts from each other, the number comes
back. -/
theorem ofDecimal_toDecimal {places : Nat} (many : places ≤ keptPlaces (format.integer x))
    (fine : (1 / (2 * 10 ^ places) + format.readingError) * format.unit + format.writingError <
      1 / 2) :
    format.ofDecimal (format.toDecimal x) = x := by
  obtain ⟨k, value, near⟩ := format.exists_places x
  obtain ⟨low, high⟩ := format.integer_mem x
  have positive := format.unit_pos x
  have below : (format.fraction x : ℚ) + 1 ≤ format.unit := by exact_mod_cast format.fraction_lt x
  have nonneg : (0 : ℚ) ≤ k := by
    exact_mod_cast (places_mem (keptPlaces_le _) (format.fraction_lt x) format.reading_lt near).1
  -- The decimal lies nearer than half a part to the fraction it was read from.
  have counted : |(k : ℚ) / 10 ^ keptPlaces (format.integer x) * format.unit - format.fraction x| ≤
      (1 / (2 * 10 ^ places) + format.readingError) * format.unit :=
    (abs_sub_div_le_iff positive).mp (near.trans (add_le_add_left (half_place_le many) _))
  have lt : (k : ℚ) / 10 ^ keptPlaces (format.integer x) < 1 := by
    have upper := (abs_le.mp counted).2
    have lt : (k : ℚ) / 10 ^ keptPlaces (format.integer x) * format.unit < 1 * format.unit := by
      linarith [format.writing_nonneg]
    exact lt_of_mul_lt_mul_right lt positive.le
  obtain ⟨m, written, parts⟩ := format.exists_parts _ _ _ value (by positivity) lt low high
  have same : m = format.fraction x := by
    refine eq_of_abs_sub_lt_one ?_
    have apart := abs_sub_le (m : ℚ) (k / 10 ^ keptPlaces (format.integer x) * format.unit)
      (format.fraction x)
    push_cast
    linarith
  subst same
  obtain ⟨integer, fraction⟩ :=
    parts (Int.natCast_nonneg _) (by exact_mod_cast format.fraction_lt x)
  exact format.ext _ _ integer (by exact_mod_cast fraction)

/-- Where the parts are fine enough, places that do not make one are written beside the same integer
part, with an error of less than half a place. -/
theorem integer_of_places {v : Decimal} {n k : Int} {places : Nat}
    (value : v.value = n + k / 10 ^ places) (nonneg : 0 ≤ k) (lt : k < 10 ^ places)
    (low : format.low ≤ n) (high : n < format.high)
    (coarse : (1 / 2 + format.writingError) / format.unit < 1 / (2 * 10 ^ places)) :
    format.integer (format.ofDecimal v) = n ∧
      |(format.fraction (format.ofDecimal v) : ℚ) / format.unit - k / 10 ^ places| ≤
        (1 / 2 + format.writingError) / format.unit := by
  have positive := format.unit_pos (format.ofDecimal v)
  have power : (0 : ℚ) < 10 ^ places := by positivity
  have step : 0 < 1 / (10 : ℚ) ^ places := by positivity
  have halves := half_add_half places
  have place_nonneg : (0 : ℚ) ≤ k / 10 ^ places := div_nonneg (by exact_mod_cast nonneg) power.le
  have place_le : (k : ℚ) / 10 ^ places ≤ 1 - 1 / 10 ^ places := by
    have less : (k : ℚ) + 1 ≤ 10 ^ places := by exact_mod_cast lt
    rw [le_sub_iff_add_le, ← add_div, div_le_one power]
    exact less
  obtain ⟨m, written, parts⟩ :=
    format.exists_parts _ _ _ value place_nonneg (by linarith) low high
  have counted : |(m : ℚ) / format.unit - k / 10 ^ places| ≤
      (1 / 2 + format.writingError) / format.unit := by
    rw [abs_sub_comm, abs_sub_div_le_iff positive, div_mul_cancel₀ _ positive.ne', abs_sub_comm]
    exact written
  have m_nonneg : 0 ≤ m := by
    have lower := (abs_le.mp written).1
    have above : (-1 : ℚ) < m := by
      linarith [format.writing_lt, mul_nonneg place_nonneg positive.le]
    have above : -1 < m := by exact_mod_cast above
    omega
  have m_lt : m < format.unit := by
    have upper := (abs_le.mp counted).2
    have fits : (m : ℚ) / format.unit < 1 := by linarith
    rw [div_lt_one positive] at fits
    exact_mod_cast fits
  obtain ⟨integer, fraction⟩ := parts m_nonneg m_lt
  have fraction : (format.fraction (format.ofDecimal v) : ℚ) = m := by exact_mod_cast fraction
  exact ⟨integer, by rwa [fraction]⟩

/-- Where the parts are fine enough to tell neighbouring places from each other, the decimal comes
back. -/
theorem value_recode {places : Nat} (few : keptPlaces (format.integer x) ≤ places)
    (coarse : format.readingError + (1 / 2 + format.writingError) / format.unit <
      1 / (2 * 10 ^ places))
    (saturates : ∀ v : Decimal, v.value = format.high →
      (format.toDecimal (format.ofDecimal v)).value = format.high) :
    (format.toDecimal (format.ofDecimal (format.toDecimal x))).value =
      (format.toDecimal x).value := by
  obtain ⟨k, value, near⟩ := format.exists_places x
  obtain ⟨low, high⟩ := format.integer_mem x
  replace coarse := coarse.trans_le (half_place_le few)
  obtain ⟨nonneg, le⟩ := places_mem (keptPlaces_le _) (format.fraction_lt x) format.reading_lt near
  rcases le.lt_or_eq with lt | carried
  · obtain ⟨integer, written⟩ :=
      format.integer_of_places value nonneg lt low high (by linarith [format.reading_nonneg])
    obtain ⟨k', value', near'⟩ := format.exists_places (format.ofDecimal (format.toDecimal x))
    rw [integer] at value' near'
    have same : k' = k := by
      refine eq_of_places_near (keptPlaces (format.integer x)) ?_
      have halves := half_add_half (keptPlaces (format.integer x))
      have apart := abs_sub_le ((k' : ℚ) / 10 ^ keptPlaces (format.integer x))
        (format.fraction (format.ofDecimal (format.toDecimal x)) / format.unit)
        (k / 10 ^ keptPlaces (format.integer x))
      linarith
    rw [value', same, value]
  · -- The fraction rounds up to one, and the decimal is the next integer or beyond the range.
    have next : (format.toDecimal x).value = (format.integer x + 1 : Int) := by
      rw [value, carried]
      push_cast
      rw [div_self (by positivity)]
    rw [next]
    rcases Int.lt_or_eq_of_le (show format.integer x + 1 ≤ format.high from high) with inside | beyond
    · exact format.value_recode_of_integer next (by omega) inside
    · rw [beyond] at next ⊢
      exact saturates _ next

/-- If one place more makes the places finer than the parts, every number comes back or its decimal
does. -/
theorem recode (places : Nat)
    (fine : (1 / (2 * 10 ^ (places + 1)) + format.readingError) * format.unit +
      format.writingError < 1 / 2)
    (coarse : format.readingError + (1 / 2 + format.writingError) / format.unit <
      1 / (2 * 10 ^ places))
    (saturates : ∀ v : Decimal, v.value = format.high →
      (format.toDecimal (format.ofDecimal v)).value = format.high) (x : Number) :
    (places + 1 ≤ keptPlaces (format.integer x) → format.ofDecimal (format.toDecimal x) = x) ∧
      (format.toDecimal (format.ofDecimal (format.toDecimal x))).value =
        (format.toDecimal x).value := by
  refine ⟨fun many => format.ofDecimal_toDecimal many fine, ?_⟩
  rcases Nat.lt_or_ge places (keptPlaces (format.integer x)) with many | few
  · rw [format.ofDecimal_toDecimal many fine]
  · exact format.value_recode few coarse saturates

end FixedFormat
end PerpDex
