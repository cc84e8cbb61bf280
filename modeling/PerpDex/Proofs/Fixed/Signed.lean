import PerpDex.Proofs.Fixed.Recoding
import PerpDex.Fixed.Signed

/-! Signed fixed point numbers come back from their decimals wherever the integer part has at most 13
digits. All others come back as numbers with the same decimal, the greatest one included, whose
decimal lies beyond the range. -/
namespace PerpDex.SignedFixed

theorem toDecimal_eq {x : SignedFixed} {v : Decimal} (found : x.toDecimal? = some v) :
    x.toDecimal = v := by
  simp [toDecimal, found]

theorem ofDecimal_eq {v : Decimal} {x : SignedFixed} (found : ofDecimal? v = some x) :
    ofDecimal v = x := by
  simp [ofDecimal, found]

/-- The places that a decimal shows: those of the fraction, rounded to 28 and then to as many as are
kept beside the integer part. -/
def shown (x : SignedFixed) : Int :=
  roundHalfEven (roundHalfEven (x.fraction * 10 ^ 28) (2 ^ 48)) (10 ^ (28 - keptPlaces x.integer))

theorem shown_mem (x : SignedFixed) : 0 ≤ x.shown ∧ x.shown ≤ 10 ^ keptPlaces x.integer := by
  have below := x.fraction_lt
  have few := keptPlaces_le x.integer
  have quotient_nonneg : 0 ≤ roundHalfEven (x.fraction * 10 ^ 28) (2 ^ 48) :=
    le_roundHalfEven (by decide) (by positivity)
  have quotient_le : roundHalfEven (x.fraction * 10 ^ 28) (2 ^ 48) ≤ 10 ^ 28 :=
    roundHalfEven_le (by decide) (by push_cast; omega)
  constructor
  · exact le_roundHalfEven (by positivity) (by simpa using quotient_nonneg)
  · refine roundHalfEven_le (by positivity) ?_
    push_cast
    rwa [← pow_add, Nat.add_sub_cancel' (by omega)]

theorem shown_of_whole {x : SignedFixed} (whole : x.fraction = 0) : x.shown = 0 := by
  simp [shown, whole, roundHalfEven]

theorem value_toDecimal (x : SignedFixed) :
    x.toDecimal.value = x.integer + x.shown / 10 ^ keptPlaces x.integer := by
  have digits := x.natAbs_integer_le
  by_cases whole : x.fraction = 0
  · rw [toDecimal_eq (v := Decimal.ofInt x.integer (by omega)) (if_pos whole),
      shown_of_whole whole, Decimal.value_ofInt, Int.cast_zero, zero_div, add_zero]
  · have below := x.fraction_lt
    have few := keptPlaces_le x.integer
    obtain ⟨quotient, divided, scale, coeff⟩ :=
      Decimal.exists_quotient x.fraction (2 ^ 48) (by omega) (by decide) (by decide) below.le
    have places : (quotient.roundPlaces (keptPlaces x.integer)).value =
        x.shown / 10 ^ keptPlaces x.integer := by
      rw [Decimal.roundPlaces, dif_neg (by omega), Decimal.value_eq]
      simp only [scale, coeff]
      rfl
    obtain ⟨nonneg, le⟩ := x.shown_mem
    obtain ⟨v, sum, value⟩ := Decimal.value_add?_places (by omega)
      (Decimal.value_ofInt x.integer (by omega)) places nonneg le
    rw [toDecimal_eq (v := v), value]
    unfold toDecimal?
    dsimp only
    rw [if_neg whole, unit, divided]
    exact sum

/-- The places are off by half of the last one, and by half of the 28th for rounding twice. -/
theorem shown_error (x : SignedFixed) :
    |(x.shown : ℚ) / 10 ^ keptPlaces x.integer - x.fraction / (2 ^ 48 : Nat)| ≤
      1 / (2 * 10 ^ keptPlaces x.integer) + 1 / (2 * 10 ^ 28) := by
  have few := keptPlaces_le x.integer
  have split : (10 : ℚ) ^ 28 = 10 ^ (28 - keptPlaces x.integer) * 10 ^ keptPlaces x.integer := by
    rw [← pow_add, Nat.sub_add_cancel (by omega)]
  have first : |(roundHalfEven (x.fraction * 10 ^ 28) (2 ^ 48) : ℚ) / 10 ^ 28 -
      x.fraction / (2 ^ 48 : Nat)| ≤ 1 / (2 * 10 ^ 28) := by
    refine abs_rounded_places_le (by decide) ?_
    push_cast
    ring
  refine (abs_sub_le _ _ _).trans (add_le_add (abs_rounded_places_le (by positivity) ?_) first)
  rw [split]
  push_cast
  field_simp

theorem exists_places (x : SignedFixed) : ∃ k : Int,
    x.toDecimal.value = x.integer + k / 10 ^ keptPlaces x.integer ∧
      |(k : ℚ) / 10 ^ keptPlaces x.integer - x.fraction / (2 ^ 48 : Nat)| ≤
        1 / (2 * 10 ^ keptPlaces x.integer) + 1 / (2 * 10 ^ 28) :=
  ⟨x.shown, x.value_toDecimal, x.shown_error⟩

theorem toInt_saturate {n : Int} (lower : -(2 ^ 127) ≤ n) (upper : n < 2 ^ 127) :
    (saturate n).toInt = n := by
  rw [saturate, if_neg (by omega), if_neg (by omega), BitVec.toInt_ofInt]
  exact Int.bmod_eq_of_le (by omega) (by omega)

/-- A number in range is written as its integer part with the parts nearest to its fraction. -/
theorem exists_written (v : Decimal) (n : Int) (q : ℚ) (value : v.value = n + q) (nonneg : 0 ≤ q)
    (lt : q < 1) (low : -(2 ^ 79) ≤ n) (high : n < 2 ^ 79) :
    ∃ m : Int, |m - q * (2 ^ 48 : Nat)| ≤ 1 / 2 + 1 / (2 * 10 ^ 14) ∧
      ofDecimal v = ⟨saturate (n * 2 ^ 48 + m)⟩ := by
  obtain ⟨floor, fraction, found, rest⟩ := Decimal.parts_unique value nonneg lt
  have room : |fraction.value * unit.value| * 10 ^ 14 ≤ 2 ^ 96 - 1 := by
    rw [rest, unit, Decimal.value_ofInt, abs_of_nonneg (by positivity)]
    push_cast
    linarith
  obtain ⟨units, product, rounds⟩ := Decimal.exists_mul? (by decide) room
  refine ⟨units.round, ?_, ofDecimal_eq ?_⟩
  · have error := rounds.error
    rw [rest, unit, Decimal.value_ofInt] at error
    exact (abs_sub_le _ units.value _).trans (add_le_add units.round_error error)
  · unfold ofDecimal?
    rw [found, floor]
    simp only [Option.bind_eq_bind, Option.bind_some, product]
    rw [if_neg (by omega), if_neg (by omega)]

theorem exists_parts (v : Decimal) (n : Int) (q : ℚ) (value : v.value = n + q) (nonneg : 0 ≤ q)
    (lt : q < 1) (low : -(2 ^ 79) ≤ n) (high : n < 2 ^ 79) :
    ∃ m : Int, |m - q * (2 ^ 48 : Nat)| ≤ 1 / 2 + 1 / (2 * 10 ^ 14) ∧
      (0 ≤ m → m < (2 ^ 48 : Nat) →
        (ofDecimal v).integer = n ∧ ((ofDecimal v).fraction : Int) = m) := by
  obtain ⟨m, near, written⟩ := exists_written v n q value nonneg lt low high
  refine ⟨m, near, fun low' high' => ?_⟩
  have bits : (ofDecimal v).bits.toInt = n * 2 ^ 48 + m := by
    rw [written]
    exact toInt_saturate (by omega) (by omega)
  rw [integer, SignedFixed.fraction, bits]
  omega

theorem ofDecimal_of_le {v : Decimal} (beyond : 2 ^ 79 ≤ v.value) : ofDecimal v = greatest := by
  have floor : 2 ^ 79 ≤ v.floor := by
    rw [Decimal.floor_eq, Int.le_floor]
    exact_mod_cast beyond
  obtain ⟨fraction, found, -⟩ := v.exists_fraction?
  apply ofDecimal_eq
  unfold ofDecimal?
  simp only [found, Option.bind_eq_bind, Option.bind_some]
  rw [if_pos floor]

theorem ofDecimal_of_lt {v : Decimal} (beyond : v.value < -2 ^ 79) : ofDecimal v = least := by
  have floor : v.floor < -(2 ^ 79) := by
    rw [Decimal.floor_eq, Int.floor_lt]
    exact_mod_cast beyond
  obtain ⟨fraction, found, -⟩ := v.exists_fraction?
  apply ofDecimal_eq
  unfold ofDecimal?
  simp only [found, Option.bind_eq_bind, Option.bind_some]
  rw [if_neg (by omega), if_pos floor]

theorem ofDecimal_of_beyond {v : Decimal} (beyond : v.value = (2 ^ 79 : Int)) :
    ofDecimal v = greatest :=
  ofDecimal_of_le (by rw [beyond]; norm_num)

/-- The fraction of the greatest number rounds up to one. -/
theorem value_greatest : greatest.toDecimal.value = (2 ^ 79 : Int) := by
  decide +kernel

theorem eq_of_parts {x y : SignedFixed} (integer : x.integer = y.integer)
    (fraction : x.fraction = y.fraction) : x = y := by
  have bits : x.bits.toInt = y.bits.toInt := by
    unfold SignedFixed.integer at integer
    unfold SignedFixed.fraction at fraction
    omega
  cases x
  cases y
  exact congrArg mk (BitVec.eq_of_toInt_eq bits)

def format : FixedFormat SignedFixed where
  unit := 2 ^ 48
  low := -(2 ^ 79)
  high := 2 ^ 79
  integer := integer
  fraction := fraction
  readingError := 1 / (2 * 10 ^ 28)
  writingError := 1 / (2 * 10 ^ 14)
  toDecimal := toDecimal
  ofDecimal := ofDecimal
  integer_mem := integer_mem
  fraction_lt := fraction_lt
  ext _ _ := eq_of_parts
  reading_nonneg := by positivity
  reading_lt := by norm_num
  writing_nonneg := by positivity
  writing_lt := by norm_num
  exists_places := exists_places
  exists_parts := exists_parts

/-- Up to 13 digits before the point leave at least 15 places, which tell all numbers apart. More
digits leave at most 14 places, and of these each is a number of its own. -/
theorem recode_of_bits (x : SignedFixed) :
    (x.integer.natAbs < 10 ^ 13 → ofDecimal x.toDecimal = x) ∧
      (ofDecimal x.toDecimal).toDecimal.value = x.toDecimal.value := by
  have places : 15 ≤ keptPlaces x.integer ↔ x.integer.natAbs < 10 ^ 13 :=
    le_keptPlaces_iff (by decide) (by decide)
  have saturates (v : Decimal) (beyond : v.value = (2 ^ 79 : Int)) :
      (ofDecimal v).toDecimal.value = (2 ^ 79 : Int) := by
    rw [ofDecimal_of_beyond beyond, value_greatest]
  rw [← places]
  exact format.recode 14 (by norm_num [format]) (by norm_num [format]) saturates x

/-- The integer part farthest below zero that has 13 digits, with the greatest fraction, and the
greatest number of all. -/
theorem recode_of_thirteenDigits :
    let x : SignedFixed := ⟨BitVec.ofInt 128 (-9999999999999 * 2 ^ 48 + (2 ^ 48 - 1))⟩
    x.integer.natAbs < 10 ^ 13 ∧ ofDecimal x.toDecimal = x ∧
      (ofDecimal greatest.toDecimal).toDecimal.value = greatest.toDecimal.value := by
  intro x
  have few : x.integer.natAbs < 10 ^ 13 := by decide +kernel
  exact ⟨few, (recode_of_bits x).1 few, (recode_of_bits greatest).2⟩

/-- With 14 digits the least fraction is lost. -/
example : ofDecimal (toDecimal ⟨10 ^ 13 * 2 ^ 48 + 1⟩) = ⟨10 ^ 13 * 2 ^ 48⟩ := by decide +kernel

end PerpDex.SignedFixed
