import PerpDex.Proofs.Fixed.Recoding
import PerpDex.Fixed.Unsigned

/-! Unsigned fixed point numbers come back from their decimals, 8 bytes always and 16 bytes wherever
the integer part has at most 8 digits. All others come back as numbers with the same decimal, the
greatest one included, whose decimal lies beyond the range. -/
namespace PerpDex

/-- Dropping the lowest digits divides. -/
theorem Bytes.toNat_drop (data : Bytes) (count : Nat) :
    toNat (data.drop count) = toNat data / 256 ^ count := by
  induction count generalizing data with
  | zero => simp
  | succ count ih =>
    cases data with
    | nil => simp [toNat]
    | cons b rest =>
      have lt := b.toNat_lt
      rw [List.drop_succ_cons, ih, toNat, Nat.pow_succ', ← Nat.div_div_eq_div_mul]
      congr 1
      omega

namespace FixedWidth

variable (w : FixedWidth)

theorem bits_eq : 8 * w.bytes = w.fractionBits + w.fractionBits := by cases w <;> rfl

theorem raw_lt {n m : Nat} (n_lt : n < 2 ^ w.fractionBits) (m_lt : m < 2 ^ w.fractionBits) :
    n * 2 ^ w.fractionBits + m < 2 ^ (8 * w.bytes) := by
  rw [w.bits_eq, Nat.pow_add]
  calc n * 2 ^ w.fractionBits + m
      < (n + 1) * 2 ^ w.fractionBits := by
        rw [Nat.succ_mul]
        omega
    _ ≤ 2 ^ w.fractionBits * 2 ^ w.fractionBits := Nat.mul_le_mul_right _ n_lt

theorem halfUnit_mul : w.halfUnit * w.halfUnit = 2 ^ w.fractionBits := by cases w <;> rfl

theorem one_le_halfUnit : (1 : ℚ) ≤ w.halfUnit := by exact_mod_cast w.halfUnit_pos

theorem halfUnit_pos_rat : (0 : ℚ) < w.halfUnit := one_pos.trans_le w.one_le_halfUnit

theorem halfUnit_le_rat : (w.halfUnit : ℚ) ≤ 2 ^ 32 := by exact_mod_cast w.halfUnit_le

/-- The first of the two quotients is rounded to 19 places and divided again, the second to 28. -/
def readingError : ℚ := 1 / (2 * 10 ^ 19) / w.halfUnit + 1 / (2 * 10 ^ 28)

/-- The first of the two products is rounded to 19 places and multiplied again, the second to 9. -/
def writingError : ℚ := w.halfUnit / (2 * 10 ^ 19) + 1 / (2 * 10 ^ 9)

theorem readingError_nonneg : 0 ≤ w.readingError := by
  unfold readingError
  positivity

theorem writingError_nonneg : 0 ≤ w.writingError := by
  unfold writingError
  positivity

theorem readingError_lt : w.readingError < 1 / (2 * 10 ^ 20) := by
  cases w <;> norm_num [readingError, halfUnit, fractionBits]

theorem writingError_lt : w.writingError < 1 / 2 := by
  cases w <;> norm_num [writingError, halfUnit, fractionBits]

end FixedWidth

namespace Decimal

variable {w : FixedWidth} {x : Decimal} {q : ℚ}

/-- Dividing twice by the half unit. -/
theorem exists_div?_twice {f : Nat} {h : (f : Int).natAbs < 2 ^ 96}
    (below : f < 2 ^ w.fractionBits) :
    ∃ once twice, (ofInt f h).div? (UnsignedFixed.halfUnit w) = some once ∧
      once.div? (UnsignedFixed.halfUnit w) = some twice ∧
      |twice.value - f / (2 ^ w.fractionBits : Nat)| ≤ w.readingError := by
  have one_le := w.one_le_halfUnit
  have positive := w.halfUnit_pos_rat
  have limit := w.halfUnit_le_rat
  have lt : (f : ℚ) / w.halfUnit < w.halfUnit := by
    rw [div_lt_iff₀ positive]
    exact_mod_cast w.halfUnit_mul ▸ below
  have nonneg : (0 : ℚ) ≤ f / w.halfUnit := by positivity
  have first : |(ofInt f h).value / w.halfUnit| * 10 ^ 19 ≤ 2 ^ 96 - 1 := by
    rw [value_ofInt, Int.cast_natCast, abs_of_nonneg nonneg]
    linarith
  obtain ⟨once, divided, rounds⟩ :=
    exists_div? (h := by have := w.halfUnit_le; omega) w.halfUnit_pos (by decide) first
  have error := rounds.error
  rw [value_ofInt, Int.cast_natCast] at error
  have second : |once.value / w.halfUnit| * 10 ^ 28 ≤ 2 ^ 96 - 1 := by
    have size : |once.value| ≤ 2 * w.halfUnit := by
      obtain ⟨lower, upper⟩ := abs_le.mp error
      rw [abs_le]
      constructor <;> linarith
    have le : |once.value| / w.halfUnit ≤ 2 := by rwa [div_le_iff₀ positive]
    rw [abs_div, abs_of_pos positive]
    linarith
  obtain ⟨twice, dividedTwice, roundsTwice⟩ :=
    exists_div? (h := by have := w.halfUnit_le; omega) w.halfUnit_pos le_rfl second
  refine ⟨once, twice, divided, dividedTwice, ?_⟩
  have carried : |once.value / w.halfUnit - f / (2 ^ w.fractionBits : Nat)| ≤
      1 / (2 * 10 ^ 19) / w.halfUnit := by
    rw [← w.halfUnit_mul, Nat.cast_mul, ← div_div, ← sub_div, abs_div, abs_of_pos positive]
    exact div_le_div_of_nonneg_right error positive.le
  rw [FixedWidth.readingError, add_comm]
  exact (abs_sub_le _ _ _).trans (add_le_add roundsTwice.error carried)

/-- Multiplying a fraction twice by the half unit. -/
theorem exists_mul?_twice (w : FixedWidth) (value : x.value = q) (nonneg : 0 ≤ q) (lt : q < 1) :
    ∃ once twice, x.mul? (UnsignedFixed.halfUnit w) = some once ∧
      once.mul? (UnsignedFixed.halfUnit w) = some twice ∧
      |twice.value - q * (2 ^ w.fractionBits : Nat)| ≤ w.writingError := by
  have one_le := w.one_le_halfUnit
  have positive := w.halfUnit_pos_rat
  have limit := w.halfUnit_le_rat
  have units : (UnsignedFixed.halfUnit w).value = w.halfUnit := value_ofInt ..
  have product_nonneg : 0 ≤ q * w.halfUnit := by positivity
  have product_le : q * w.halfUnit ≤ w.halfUnit := mul_le_of_le_one_left positive.le lt.le
  have first : |x.value * (UnsignedFixed.halfUnit w).value| * 10 ^ 19 ≤ 2 ^ 96 - 1 := by
    rw [value, units, abs_of_nonneg product_nonneg]
    linarith
  obtain ⟨once, product, rounds⟩ := exists_mul? (by decide) first
  have error := rounds.error
  rw [value, units] at error
  have second : |once.value * (UnsignedFixed.halfUnit w).value| * 10 ^ 9 ≤ 2 ^ 96 - 1 := by
    have size : |once.value| ≤ 2 * 2 ^ 32 := by
      obtain ⟨lower, upper⟩ := abs_le.mp error
      rw [abs_le]
      constructor <;> linarith
    have le : |once.value| * w.halfUnit ≤ 2 * 2 ^ 32 * 2 ^ 32 :=
      mul_le_mul size limit positive.le (by norm_num)
    rw [abs_mul, units, abs_of_pos positive]
    linarith
  obtain ⟨twice, productTwice, roundsTwice⟩ := exists_mul? (by decide) second
  refine ⟨once, twice, product, productTwice, ?_⟩
  have carried : |once.value * w.halfUnit - q * (2 ^ w.fractionBits : Nat)| ≤
      w.halfUnit / (2 * 10 ^ 19) := by
    have grown := mul_le_mul_of_nonneg_right error positive.le
    rwa [← abs_of_pos positive, ← abs_mul, abs_of_pos positive, sub_mul, mul_assoc, ← Nat.cast_mul,
      w.halfUnit_mul, one_div_mul_eq_div] at grown
  have error := roundsTwice.error
  rw [units] at error
  rw [FixedWidth.writingError, add_comm]
  exact (abs_sub_le _ _ _).trans (add_le_add error carried)

end Decimal

namespace UnsignedFixed

variable {w : FixedWidth}

theorem toDecimal_eq {x : UnsignedFixed w} {v : Decimal} (found : x.toDecimal? = some v) :
    x.toDecimal = v :=
  Option.get_of_eq_some _ found

theorem ofDecimal_eq {v : Decimal} {x : UnsignedFixed w} (found : ofDecimal? v = some x) :
    ofDecimal v = x :=
  Option.get_of_eq_some _ found

theorem fraction_lt_unit (x : UnsignedFixed w) : x.fraction < 2 ^ w.fractionBits :=
  Nat.mod_lt _ (Nat.two_pow_pos _)

theorem integer_lt_unit (x : UnsignedFixed w) : x.integer < 2 ^ w.fractionBits := by
  apply Nat.div_lt_of_lt_mul
  rw [← Nat.pow_add, ← w.bits_eq]
  exact x.raw.isLt

theorem parts_of_raw {x : UnsignedFixed w} {n m : Nat}
    (raw : x.raw.toNat = n * 2 ^ w.fractionBits + m) (m_lt : m < 2 ^ w.fractionBits) :
    x.integer = n ∧ x.fraction = m := by
  rw [integer, fraction, Nat.div_mod_unique (Nat.two_pow_pos w.fractionBits), raw]
  exact ⟨by ring, m_lt⟩

theorem exists_places (x : UnsignedFixed w) : ∃ k : Int,
    x.toDecimal.value = (x.integer : Int) + k / 10 ^ keptPlaces x.integer ∧
      |(k : ℚ) / 10 ^ keptPlaces x.integer - x.fraction / (2 ^ w.fractionBits : Nat)| ≤
        1 / (2 * 10 ^ keptPlaces x.integer) + w.readingError := by
  have digits := x.integer_lt
  by_cases whole : x.fraction = 0
  · rw [toDecimal_eq (v := Decimal.ofInt x.integer (by omega)) (if_pos whole), whole]
    exact Decimal.exists_places_of_whole _ (Decimal.value_ofInt ..) w.readingError_nonneg
  · have below := x.fraction_lt
    obtain ⟨once, twice, divided, dividedTwice, error⟩ :=
      Decimal.exists_div?_twice (h := by omega) x.fraction_lt_unit
    obtain ⟨k, v, sum, value, near⟩ := Decimal.exists_places (by omega)
      (Decimal.value_ofInt x.integer (by omega)) x.fraction_lt_unit w.readingError_lt error
    refine ⟨k, ?_, near⟩
    rw [toDecimal_eq (v := v), value]
    unfold toDecimal?
    dsimp only
    rw [if_neg whole]
    simp only [divided, dividedTwice, Option.bind_eq_bind, Option.bind_some]
    exact sum

/-- Of a number that is not negative nothing is cut off before it is written. -/
theorem exists_parts (v : Decimal) (n : Int) (q : ℚ) (value : v.value = n + q) (nonneg : 0 ≤ q)
    (lt : q < 1) (low : 0 ≤ n) (high : n < (2 ^ w.fractionBits : Nat)) :
    ∃ m : Int, |m - q * (2 ^ w.fractionBits : Nat)| ≤ 1 / 2 + w.writingError ∧
      (0 ≤ m → m < (2 ^ w.fractionBits : Nat) →
        ((ofDecimal v : UnsignedFixed w).integer : Int) = n ∧
          ((ofDecimal v : UnsignedFixed w).fraction : Int) = m) := by
  obtain ⟨floor, fraction, found, rest⟩ := Decimal.parts_unique value nonneg lt
  obtain ⟨once, twice, product, productTwice, error⟩ :=
    Decimal.exists_mul?_twice w rest nonneg lt
  have positive : 0 ≤ v.coeff := by
    apply Decimal.coeff_nonneg
    rw [value]
    exact add_nonneg (by exact_mod_cast low) nonneg
  have written : (ofDecimal v : UnsignedFixed w) =
      ⟨BitVec.ofNat _ (min (n * 2 ^ w.fractionBits + twice.round).toNat (2 ^ (8 * w.bytes) - 1))⟩ := by
    apply ofDecimal_eq
    unfold ofDecimal?
    dsimp only
    rw [if_neg positive.not_gt, found, floor]
    simp only [product, productTwice, Option.bind_eq_bind, Option.bind_some]
    rw [if_neg]
    exact not_not.mpr (Int.ediv_eq_zero_of_lt low (by exact_mod_cast high))
  refine ⟨twice.round, (abs_sub_le _ twice.value _).trans (add_le_add twice.round_error error),
    fun low' high' => ?_⟩
  obtain ⟨n, rfl⟩ := Int.eq_ofNat_of_zero_le low
  obtain ⟨m, units⟩ := Int.eq_ofNat_of_zero_le low'
  rw [units] at high' written ⊢
  have m_lt : m < 2 ^ w.fractionBits := by exact_mod_cast high'
  have fits := w.raw_lt (show n < 2 ^ w.fractionBits by exact_mod_cast high) m_lt
  have raw : (ofDecimal v : UnsignedFixed w).raw.toNat = n * 2 ^ w.fractionBits + m := by
    have same : ((n : Int) * 2 ^ w.fractionBits + (m : Int)).toNat = n * 2 ^ w.fractionBits + m := by
      exact_mod_cast Int.toNat_natCast _
    rw [written, same, BitVec.toNat_ofNat, Nat.min_eq_left (by omega), Nat.mod_eq_of_lt fits]
  obtain ⟨integer, fraction⟩ := parts_of_raw raw m_lt
  exact ⟨congrArg Nat.cast integer, congrArg Nat.cast fraction⟩

theorem eq_of_parts {x y : UnsignedFixed w} (integer : x.integer = y.integer)
    (fraction : x.fraction = y.fraction) : x = y := by
  have raw : x.raw.toNat = y.raw.toNat := by
    rw [← Nat.div_add_mod x.raw.toNat (2 ^ w.fractionBits),
      ← Nat.div_add_mod y.raw.toNat (2 ^ w.fractionBits)]
    exact congrArg₂ (2 ^ w.fractionBits * · + ·) integer fraction
  cases x
  cases y
  exact congrArg mk (BitVec.eq_of_toNat_eq raw)

variable (w) in
def format : FixedFormat (UnsignedFixed w) where
  unit := 2 ^ w.fractionBits
  low := 0
  high := (2 ^ w.fractionBits : Nat)
  integer x := x.integer
  fraction := fraction
  readingError := w.readingError
  writingError := w.writingError
  toDecimal := toDecimal
  ofDecimal := ofDecimal
  integer_mem x := ⟨Int.natCast_nonneg _, Int.ofNat_lt.mpr x.integer_lt_unit⟩
  fraction_lt := fraction_lt_unit
  ext _ _ integer := eq_of_parts (Int.ofNat_inj.mp integer)
  reading_nonneg := w.readingError_nonneg
  reading_lt := w.readingError_lt
  writing_nonneg := w.writingError_nonneg
  writing_lt := w.writingError_lt
  exists_places := exists_places
  exists_parts := exists_parts

theorem narrow_recode (x : UnsignedFixed .narrow) : ofDecimal x.toDecimal = x := by
  have places : 18 ≤ keptPlaces x.integer := by
    rw [le_keptPlaces_iff (by decide) (by decide)]
    have limit := x.integer_lt_unit
    simp only [FixedWidth.fractionBits] at limit
    omega
  exact (format .narrow).ofDecimal_toDecimal places (by
    norm_num [format, FixedWidth.readingError, FixedWidth.writingError, FixedWidth.halfUnit,
      FixedWidth.fractionBits])

/-- The fraction of the greatest number rounds up to one. -/
theorem wide_value_greatest :
    (greatest : UnsignedFixed .wide).toDecimal.value = ((2 ^ 64 : Nat) : Int) := by
  decide +kernel

theorem ofDecimal_of_beyond {v : Decimal} (beyond : v.value = ((2 ^ w.fractionBits : Nat) : Int)) :
    (ofDecimal v : UnsignedFixed w) = greatest := by
  have floor : v.floor = (2 ^ w.fractionBits : Nat) := by
    rw [Decimal.floor_eq, beyond, Int.floor_intCast]
  have positive : 0 ≤ v.coeff := by
    apply Decimal.coeff_nonneg
    rw [beyond]
    exact_mod_cast Nat.zero_le _
  obtain ⟨fraction, found, -⟩ := v.exists_fraction?
  apply ofDecimal_eq
  unfold ofDecimal?
  dsimp only
  rw [if_neg positive.not_gt, found, floor]
  simp only [Option.bind_eq_bind, Option.bind_some]
  rw [if_pos]
  have one : ((2 ^ w.fractionBits : Nat) : Int) / 2 ^ w.fractionBits = 1 :=
    Int.ediv_self (by positivity)
  omega

/-- Up to 8 digits before the point leave 20 places, which tell all numbers apart. More digits leave
at most 19 places, and of these each is a number of its own. -/
theorem wide_recode (x : UnsignedFixed .wide) :
    (x.integer < 10 ^ 8 → ofDecimal x.toDecimal = x) ∧
      (ofDecimal x.toDecimal : UnsignedFixed .wide).toDecimal.value = x.toDecimal.value := by
  have places : 20 ≤ keptPlaces x.integer ↔ x.integer < 10 ^ 8 :=
    le_keptPlaces_iff (by decide) le_rfl
  have saturates (v : Decimal) (beyond : v.value = ((2 ^ 64 : Nat) : Int)) :
      (ofDecimal v : UnsignedFixed .wide).toDecimal.value = ((2 ^ 64 : Nat) : Int) := by
    rw [ofDecimal_of_beyond beyond, wide_value_greatest]
  rw [← places]
  refine (format .wide).recode 19 ?_ ?_ saturates x <;>
    norm_num [format, FixedWidth.readingError, FixedWidth.writingError, FixedWidth.halfUnit,
      FixedWidth.fractionBits]

def recoded (w : FixedWidth) (window : Bytes) : Bytes :=
  (ofDecimal (ofBytes window : UnsignedFixed w).toDecimal : UnsignedFixed w).toBytes

theorem toBytes_ofBytes {window : Bytes} (length : window.length = w.bytes) :
    (ofBytes window : UnsignedFixed w).toBytes = window := by
  have fits := Bytes.toNat_lt window
  rw [length, show 256 = 2 ^ 8 from rfl, ← Nat.pow_mul] at fits
  rw [toBytes, ofBytes, BitVec.toNat_ofNat, Nat.mod_eq_of_lt fits, ← length, Bytes.ofNat_toNat]

theorem ofBytes_toBytes (x : UnsignedFixed w) : ofBytes x.toBytes = x := by
  have power : 256 ^ w.bytes = 2 ^ (8 * w.bytes) := by rw [Nat.pow_mul]
  rw [ofBytes, toBytes, Bytes.toNat_ofNat, power, Nat.mod_eq_of_lt x.raw.isLt]
  exact congrArg mk ((BitVec.ofNat_toNat _ _).trans (BitVec.setWidth_eq _))

theorem wide_integer_ofBytes {window : Bytes} (length : window.length = 16) :
    (ofBytes window : UnsignedFixed .wide).integer = Bytes.toNat (window.drop 8) := by
  have fits := Bytes.toNat_lt window
  rw [length] at fits
  rw [Bytes.toNat_drop]
  exact congrArg (· / 2 ^ 64) (Nat.mod_eq_of_lt fits)

/-- Windows of 8 bytes come back as they were, and so do those of 16 bytes whose integer part, the
upper half, has at most 8 digits. The decimal of every window of 16 bytes comes back. -/
theorem recode_of_bytes (window : Bytes) :
    (window.length = 8 → recoded .narrow window = window) ∧
      (window.length = 16 →
        (Bytes.toNat (window.drop 8) < 10 ^ 8 → recoded .wide window = window) ∧
        (ofBytes (recoded .wide window) : UnsignedFixed .wide).toDecimal.value =
          (ofBytes window : UnsignedFixed .wide).toDecimal.value) := by
  refine ⟨fun length => ?_, fun length => ⟨fun few => ?_, ?_⟩⟩
  · rw [recoded, narrow_recode, toBytes_ofBytes length]
  · rw [← wide_integer_ofBytes length] at few
    rw [recoded, (wide_recode _).1 few, toBytes_ofBytes length]
  · rw [recoded, ofBytes_toBytes, (wide_recode _).2]

/-- The greatest windows of both widths, and the greatest of 16 bytes with an integer part of 8
digits. -/
theorem recode_of_greatest :
    let narrow : Bytes := List.replicate 8 255
    let wide : Bytes := List.replicate 16 255
    let few : Bytes := List.replicate 8 255 ++ Bytes.ofNat 8 99999999
    (narrow.length = 8 ∧ recoded .narrow narrow = narrow) ∧
      (wide.length = 16 ∧ (ofBytes (recoded .wide wide) : UnsignedFixed .wide).toDecimal.value =
        (ofBytes wide : UnsignedFixed .wide).toDecimal.value) ∧
      few.length = 16 ∧ Bytes.toNat (few.drop 8) < 10 ^ 8 ∧ recoded .wide few = few := by
  intro narrow wide few
  have digits : Bytes.toNat (few.drop 8) < 10 ^ 8 := by decide
  exact ⟨⟨rfl, (recode_of_bytes narrow).1 rfl⟩, ⟨rfl, ((recode_of_bytes wide).2 rfl).2⟩, rfl, digits,
    ((recode_of_bytes few).2 rfl).1 digits⟩

end UnsignedFixed
end PerpDex
