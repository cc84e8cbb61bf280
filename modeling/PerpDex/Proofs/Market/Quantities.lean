import PerpDex.Proofs.Decimal.Values
import PerpDex.Account.PerpMarket

/-! Quantities in lots and in base tokens. A quantity that has a number of tokens is written without
rounding, so it comes back as the same number of lots. Only 28 places of a token are counted: where
it has more, the number of tokens is too large. -/
namespace PerpDex.PerpMarket

@[simp] theorem value_lots (n : Int64) : (lots n).value = n.toInt := Decimal.value_ofInt ..

theorem value_powerOfTen (n : Nat) : (powerOfTen n).value = 10 ^ min n 28 := by
  rw [powerOfTen, if_pos (by omega), Decimal.value_ofInt]
  simp

theorem value_powerOfTen_neg (n : Nat) : (powerOfTen (-n)).value = 1 / 10 ^ min n 28 := by
  by_cases zero : n = 0
  · subst zero
    exact (value_powerOfTen 0).trans (by simp)
  · rw [powerOfTen, if_neg (by omega), Decimal.value_eq]
    simp

theorem wholeLots?_eq_some_iff {x : Decimal} {n : Int64} :
    wholeLots? x = some n ↔ x.trunc = n.toInt := by
  have lower := n.le_toInt
  have upper := n.toInt_lt
  unfold wholeLots?
  split
  · rename_i inside
    rw [Option.some_inj, ← Int64.toInt_inj, Int64.toInt_ofInt_of_le inside.1 inside.2]
  · rename_i outside
    simp only [reduceCtorEq, false_iff]
    intro same
    omega

/-- A number of lots is that many whole lots. -/
theorem wholeLots?_of_value {x : Decimal} {n : Int64} (value : x.value = n.toInt) :
    wholeLots? x = some n := by
  rw [wholeLots?_eq_some_iff, Decimal.trunc_eq_iff, value]
  simp

theorem mul?_lots (a b : Int64) :
    (lots a).mul? (lots b) = Decimal.rounded? ((a.toInt * b.toInt : Int) : ℚ) := by
  rw [Decimal.mul?_eq_rounded?, value_lots, value_lots, Int.cast_mul]

/-- Lots of a size are a number of native units, if that has no more than 96 bits. -/
theorem mul?_lots_eq_some {a b : Int64} {z : Decimal} (found : (lots a).mul? (lots b) = some z) :
    z.value = (a.toInt * b.toInt : Int) ∧ (a.toInt * b.toInt).natAbs < 2 ^ 96 := by
  rw [mul?_lots] at found
  have value := Decimal.value_of_rounded?_intCast found
  have size := z.abs_value_le
  rw [value, ← Int.cast_abs, Int.abs_eq_natAbs, le_sub_iff_add_le] at size
  exact ⟨value, by exact_mod_cast size⟩

theorem exists_mul?_lots {a b : Int64} (small : (a.toInt * b.toInt).natAbs < 2 ^ 96) :
    ∃ z, (lots a).mul? (lots b) = some z ∧ z.value = (a.toInt * b.toInt : Int) := by
  have found := Decimal.exists_rounded?_value (.ofInt _ small)
  rwa [Decimal.value_ofInt, ← mul?_lots] at found

variable {m : PerpMarket} {quantity : Int64} {baseDecimals : UInt8} {tokens : Decimal}

def nativeUnits (m : PerpMarket) (quantity : Int64) : Int := quantity.toInt * m.baseLotSize.toInt

/-- Native units with the point in front of as many places as a token has, of which there are
at most 28. -/
def tokenPlaces (m : PerpMarket) (quantity : Int64) (baseDecimals : UInt8)
    (small : (m.nativeUnits quantity).natAbs < 2 ^ 96) : Decimal :=
  ⟨m.nativeUnits quantity, min baseDecimals.toNat 28, small, Nat.min_le_right ..⟩

theorem value_tokenPlaces (small : (m.nativeUnits quantity).natAbs < 2 ^ 96) :
    (m.tokenPlaces quantity baseDecimals small).value =
      m.nativeUnits quantity / 10 ^ min baseDecimals.toNat 28 := Decimal.value_eq _

theorem quantityToTokens?_eq_rounded? (small : (m.nativeUnits quantity).natAbs < 2 ^ 96) :
    m.quantityToTokens? quantity baseDecimals =
      Decimal.rounded? (m.tokenPlaces quantity baseDecimals small).value := by
  obtain ⟨native, units, value⟩ := exists_mul?_lots small
  rw [quantityToTokens?, units, Option.bind_eq_bind, Option.bind_some, Decimal.mul?_eq_rounded?,
    value, value_powerOfTen_neg, mul_one_div, value_tokenPlaces]
  rfl

theorem natAbs_nativeUnits_lt (shown : m.quantityToTokens? quantity baseDecimals = some tokens) :
    (m.nativeUnits quantity).natAbs < 2 ^ 96 := by
  obtain ⟨native, units, -⟩ := Option.bind_eq_some_iff.mp shown
  exact (mul?_lots_eq_some units).2

/-- The tokens of a quantity are not rounded. -/
theorem value_of_quantityToTokens? (shown : m.quantityToTokens? quantity baseDecimals = some tokens) :
    tokens.value = m.nativeUnits quantity / 10 ^ min baseDecimals.toNat 28 := by
  have small := natAbs_nativeUnits_lt shown
  rw [quantityToTokens?_eq_rounded? small] at shown
  rw [Decimal.value_of_rounded? shown, value_tokenPlaces]

theorem quantityToTokens?_isSome_iff :
    (m.quantityToTokens? quantity baseDecimals).isSome ↔ (m.nativeUnits quantity).natAbs < 2 ^ 96 := by
  rw [Option.isSome_iff_exists]
  constructor
  · rintro ⟨tokens, shown⟩
    exact natAbs_nativeUnits_lt shown
  · intro small
    obtain ⟨tokens, found, -⟩ := (m.tokenPlaces quantity baseDecimals small).exists_rounded?_value
    exact ⟨tokens, (quantityToTokens?_eq_rounded? small).trans found⟩

/-- A quantity that was turned into tokens comes back as the same number of lots, also for negative
quantities and negative sizes of a lot. -/
theorem quantity_returns (sized : m.baseLotSize ≠ 0)
    (shown : m.quantityToTokens? quantity baseDecimals = some tokens) :
    m.tokensToQuantity? tokens baseDecimals = some quantity := by
  have small := natAbs_nativeUnits_lt shown
  have size : (m.baseLotSize.toInt : ℚ) ≠ 0 := by
    exact_mod_cast mt Int64.toInt_inj.mp sized
  have units : tokens.value * (powerOfTen baseDecimals.toNat).value =
      (Decimal.ofInt (m.nativeUnits quantity) small).value := by
    rw [value_of_quantityToTokens? shown, value_powerOfTen, Decimal.value_ofInt]
    exact div_mul_cancel₀ _ (by positivity)
  obtain ⟨native, toNative, value⟩ := (Decimal.ofInt _ small).exists_rounded?_value
  have whole : native.value / (lots m.baseLotSize).value = (lots quantity).value := by
    rw [value, Decimal.value_ofInt, value_lots, value_lots, nativeUnits, Int.cast_mul]
    exact mul_div_cancel_right₀ _ size
  obtain ⟨quotient, toLots, value'⟩ := (lots quantity).exists_rounded?_value
  rw [tokensToQuantity?, Decimal.mul?_eq_rounded?, units, toNative, Option.bind_eq_bind,
    Option.bind_some, Decimal.div?_eq_rounded? (by rwa [value_lots]), whole, toLots,
    Option.bind_some]
  exact wholeLots?_of_value (value'.trans (value_lots quantity))

def bare (quoteLotSize baseLotSize : Int64) : PerpMarket where
  header := Header.new .perpMarket 0 true
  group := .zero
  bids := .zero
  asks := .zero
  eventQueue := .zero
  quoteLotSize
  baseLotSize
  longFunding := .zero
  shortFunding := .zero
  openInterest := 0
  lastUpdated := ⟨0⟩
  sequence := 0
  feesAccrued := .zero
  liquidityMining := ⟨.zero, .zero, ⟨0⟩, 0, 0, 0⟩
  mngoVault := .zero

/-- Twenty-five lots sold, of a size below zero. -/
theorem quantity_returns_negative :
    ∃ tokens, (bare 100 (-10000000)).quantityToTokens? (-25) 9 = some tokens ∧
      tokens.value = 1 / 4 ∧
      (bare 100 (-10000000)).tokensToQuantity? tokens 9 = some (-25) := by
  obtain ⟨tokens, shown⟩ := Option.isSome_iff_exists.mp
    ((@quantityToTokens?_isSome_iff (bare 100 (-10000000)) (-25) 9).mpr (by decide))
  have quarter : ((250000000 : Int) : ℚ) / 10 ^ min 9 28 = 1 / 4 := by norm_num
  exact ⟨tokens, shown, (value_of_quantityToTokens? shown).trans quarter,
    quantity_returns (by decide) shown⟩

/-- Counting 28 places in place of more makes every number of tokens but zero too large. -/
theorem token_error_le_iff {units : Int} {decimals : Nat} :
    |(units : ℚ) / 10 ^ min decimals 28 - units / 10 ^ decimals| ≤ 1 / 2 / 10 ^ 28 ↔
      decimals ≤ 28 ∨ units = 0 := by
  have half : (0 : ℚ) ≤ 1 / 2 / 10 ^ 28 := by norm_num
  constructor
  · intro near
    by_contra! more
    obtain ⟨many, nonzero⟩ := more
    have one : (1 : ℚ) ≤ |(units : ℚ)| := by exact_mod_cast Int.one_le_abs nonzero
    have tenth : 1 / (10 : ℚ) ^ decimals ≤ 1 / 10 ^ 29 :=
      one_div_le_one_div_of_le (by positivity) (pow_le_pow_right₀ (by norm_num) many)
    have apart : |(units : ℚ) / 10 ^ 28 - units / 10 ^ decimals| =
        |(units : ℚ)| * (1 / 10 ^ 28 - 1 / 10 ^ decimals) := by
      rw [← abs_of_nonneg (a := 1 / (10 : ℚ) ^ 28 - 1 / 10 ^ decimals) (by linarith), ← abs_mul]
      congr 1
      ring
    rw [Nat.min_eq_right (by omega), apart] at near
    have grown := le_mul_of_one_le_left (a := |(units : ℚ)|)
      (b := 1 / (10 : ℚ) ^ 28 - 1 / 10 ^ decimals) (by linarith) one
    linarith
  · rintro (few | rfl)
    · rwa [Nat.min_eq_left few, sub_self, abs_zero]
    · rwa [Int.cast_zero, zero_div, zero_div, sub_self, abs_zero]

/-- A quantity has a number of tokens exactly if its native units have 96 bits. The number counts
up to 28 places of a token: it is exact for tokens that have no more, and for tokens with more it is
not even within half a unit of the last place, unless it is zero. -/
theorem quantity_in_tokens (m : PerpMarket) (quantity : Int64) (baseDecimals : UInt8) :
    ((m.quantityToTokens? quantity baseDecimals).isSome ↔
      (quantity.toInt * m.baseLotSize.toInt).natAbs < 2 ^ 96) ∧
    ∀ tokens, m.quantityToTokens? quantity baseDecimals = some tokens →
      tokens.value = quantity.toInt * m.baseLotSize.toInt / 10 ^ min baseDecimals.toNat 28 ∧
      (|tokens.value - quantity.toInt * m.baseLotSize.toInt / 10 ^ baseDecimals.toNat| ≤
          1 / 2 / 10 ^ 28 ↔
        baseDecimals.toNat ≤ 28 ∨ quantity.toInt * m.baseLotSize.toInt = 0) := by
  refine ⟨quantityToTokens?_isSome_iff, fun tokens shown => ?_⟩
  have value := value_of_quantityToTokens? shown
  rw [← Int.cast_mul, value, ← nativeUnits]
  exact ⟨rfl, token_error_le_iff⟩

/-- Twenty-five lots of a hundredth of a token are a quarter of one. Of tokens with 29 places, ten
of the least units are shown as ten units of the 28th place, which are ten times as much. -/
theorem quantity_in_tokens_of_bare :
    (∃ tokens, (bare 100 10000000).quantityToTokens? 25 9 = some tokens ∧ tokens.value = 1 / 4) ∧
      ∃ tokens, (bare 100 1).quantityToTokens? 10 29 = some tokens ∧
        tokens.value = 1 / 10 ^ 27 ∧ ¬|tokens.value - 10 / 10 ^ 29| ≤ 1 / 2 / 10 ^ 28 := by
  obtain ⟨few, counted⟩ := quantity_in_tokens (bare 100 10000000) 25 9
  obtain ⟨few', counted'⟩ := quantity_in_tokens (bare 100 1) 10 29
  obtain ⟨tokens, shown⟩ := Option.isSome_iff_exists.mp (few.mpr (by decide))
  obtain ⟨tokens', shown'⟩ := Option.isSome_iff_exists.mp (few'.mpr (by decide))
  obtain ⟨value, -⟩ := counted tokens shown
  obtain ⟨value', near⟩ := counted' tokens' shown'
  have quarter : (25 : ℚ) * 10000000 / 10 ^ min 9 28 = 1 / 4 := by norm_num
  have tenfold : (10 : ℚ) * 1 / 10 ^ min 29 28 = 1 / 10 ^ 27 := by norm_num
  have apart : ¬(29 ≤ 28 ∨ (10 : Int) * 1 = 0) := by decide
  refine ⟨⟨tokens, shown, value.trans quarter⟩, tokens', shown', value'.trans tenfold, ?_⟩
  have same : (10 : ℚ) / 10 ^ 29 = 10 * 1 / 10 ^ 29 := by norm_num
  rw [same]
  exact mt near.mp apart

/-- Not every number of tokens is the quantity, rounded to 28 places. -/
theorem tokens_differ_from_quantity :
    ¬∀ (m : PerpMarket) (quantity : Int64) (baseDecimals : UInt8) (tokens : Decimal),
      m.quantityToTokens? quantity baseDecimals = some tokens →
        |tokens.value - quantity.toInt * m.baseLotSize.toInt / 10 ^ baseDecimals.toNat| ≤
          1 / 2 / 10 ^ 28 := by
  intro close
  obtain ⟨tokens, shown⟩ := Option.isSome_iff_exists.mp
    ((@quantityToTokens?_isSome_iff (bare 100 1) 10 29).mpr (by decide))
  have near := close _ _ _ _ shown
  rw [value_of_quantityToTokens? shown, ← Int.cast_mul] at near
  exact absurd (token_error_le_iff.mp near) (by decide)

end PerpDex.PerpMarket
