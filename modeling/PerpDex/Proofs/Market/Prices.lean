import PerpDex.Proofs.Market.Quantities

/-! Prices in lots, in native units and in tokens, and back. A price that needs no rounding comes back
as the same number of lots. One that was rounded away from zero does too, unless it has become too
large to be taken back; one that was rounded toward zero may come back as one lot less. A price in
tokens comes back as its native price does, as long as no places are lost between the two, and
otherwise no farther off than a lot and the lots in the last place. -/
namespace PerpDex.PerpMarket

structure Sized (m : PerpMarket) : Prop where
  quote : 0 < m.quoteLotSize
  base : 0 < m.baseLotSize

/-- The price in native units, before it is rounded. -/
def exactPrice (m : PerpMarket) (price : Int64) : ℚ :=
  price.toInt * m.quoteLotSize.toInt / m.baseLotSize.toInt

/-- The lots in a native price, also parts of one. -/
def exactLots (m : PerpMarket) (native : ℚ) : ℚ :=
  native * m.baseLotSize.toInt / m.quoteLotSize.toInt

theorem one_le_toInt {n : Int64} (pos : 0 < n) : (1 : ℚ) ≤ n.toInt := by
  have lt := Int64.lt_iff_toInt_lt.mp pos
  exact_mod_cast lt

theorem abs_toInt_le (n : Int64) : |(n.toInt : ℚ)| ≤ 2 ^ 63 := by
  have lower := n.le_toInt
  have upper := n.toInt_lt
  rw [abs_le]
  constructor
  · exact_mod_cast lower
  · exact_mod_cast upper.le

variable {m : PerpMarket} {price : Int64} {native tokens base quotient : Decimal}

theorem Sized.base_pos (sized : m.Sized) : (0 : ℚ) < m.baseLotSize.toInt :=
  zero_lt_one.trans_le (one_le_toInt sized.base)

theorem Sized.quote_pos (sized : m.Sized) : (0 : ℚ) < m.quoteLotSize.toInt :=
  zero_lt_one.trans_le (one_le_toInt sized.quote)

theorem Sized.abs_mul_base (sized : m.Sized) (q : ℚ) :
    |q * m.baseLotSize.toInt| = |q| * m.baseLotSize.toInt := by
  rw [abs_mul, abs_of_pos sized.base_pos]

theorem Sized.abs_div_quote (sized : m.Sized) (q : ℚ) :
    |q / m.quoteLotSize.toInt| = |q| / m.quoteLotSize.toInt := by
  rw [abs_div, abs_of_pos sized.quote_pos]

theorem exactLots_exactPrice (sized : m.Sized) : m.exactLots (m.exactPrice price) = price.toInt := by
  have base := sized.base_pos
  have quote := sized.quote_pos
  rw [exactLots, exactPrice]
  field_simp

theorem exactLots_eq (m : PerpMarket) (native : ℚ) : m.exactLots native = native * m.exactLots 1 := by
  rw [exactLots, exactLots, one_mul, mul_div_assoc]

theorem exactLots_one_mem (sized : m.Sized) : 0 ≤ m.exactLots 1 ∧ m.exactLots 1 ≤ 2 ^ 63 := by
  have size := (le_abs_self _).trans (abs_toInt_le m.baseLotSize)
  have le := div_le_self sized.base_pos.le (one_le_toInt sized.quote)
  rw [exactLots, one_mul]
  exact ⟨(div_pos sized.base_pos sized.quote_pos).le, le.trans size⟩

theorem abs_exactLots (sized : m.Sized) (native : ℚ) :
    |m.exactLots native| = |native| * m.exactLots 1 := by
  rw [exactLots_eq, abs_mul, abs_of_nonneg (exactLots_one_mem sized).1]

theorem exactLots_sub (m : PerpMarket) (a b : ℚ) :
    m.exactLots a - m.exactLots b = m.exactLots (a - b) := by
  rw [exactLots_eq, exactLots_eq m b, exactLots_eq m (a - b), sub_mul]

theorem abs_exactPrice_mul (sized : m.Sized) :
    |m.exactPrice price| * m.baseLotSize.toInt =
      ((price.toInt * m.quoteLotSize.toInt).natAbs : ℚ) := by
  rw [← sized.abs_mul_base, exactPrice, div_mul_cancel₀ _ sized.base_pos.ne', Nat.cast_natAbs,
    Int.cast_abs, Int.cast_mul]

theorem lotToNativePrice?_eq_some (sized : m.Sized)
    (shown : m.lotToNativePrice? price = some native) :
    Decimal.rounded? (m.exactPrice price) = some native ∧
      |m.exactPrice price| * m.baseLotSize.toInt ≤ 2 ^ 96 - 1 := by
  have nonzero : (lots m.baseLotSize).value ≠ 0 := by
    rw [value_lots]
    exact sized.base_pos.ne'
  obtain ⟨quote, units, found⟩ := Option.bind_eq_some_iff.mp shown
  obtain ⟨value, small⟩ := mul?_lots_eq_some units
  rw [Decimal.div?_eq_rounded? nonzero, value, value_lots, Int.cast_mul] at found
  rw [abs_exactPrice_mul sized, le_sub_iff_add_le]
  exact ⟨found, by exact_mod_cast small⟩

/-- The way back takes two roundings and a cut. -/
theorem nativePriceToLot?_eq (sized : m.Sized) (native : Decimal) :
    m.nativePriceToLot? native = (Decimal.rounded? (native.value * m.baseLotSize.toInt)).bind
      fun base => (Decimal.rounded? (base.value / m.quoteLotSize.toInt)).bind wholeLots? := by
  have nonzero : (lots m.quoteLotSize).value ≠ 0 := by
    rw [value_lots]
    exact sized.quote_pos.ne'
  simp only [nativePriceToLot?, Decimal.mul?_eq_rounded?, Decimal.div?_eq_rounded? nonzero,
    value_lots]
  rfl

/-- The last step back to lots has a result if the first one has. -/
theorem nativePriceToLot?_cases (sized : m.Sized) (native : Decimal) :
    (m.nativePriceToLot? native = none ∧ 2 ^ 96 - 1 < |native.value * m.baseLotSize.toInt|) ∨
      ∃ base quotient, Decimal.rounded? (native.value * m.baseLotSize.toInt) = some base ∧
        Decimal.rounded? (base.value / m.quoteLotSize.toInt) = some quotient ∧
        m.nativePriceToLot? native = wholeLots? quotient := by
  rw [nativePriceToLot?_eq sized]
  cases found : Decimal.rounded? (native.value * m.baseLotSize.toInt) with
  | none =>
    refine .inl ⟨rfl, ?_⟩
    by_contra! room
    exact Decimal.rounded?_ne_none room found
  | some base =>
    have room : |base.value / m.quoteLotSize.toInt| ≤ 2 ^ 96 - 1 := by
      rw [sized.abs_div_quote]
      exact (div_le_self (abs_nonneg _) (one_le_toInt sized.quote)).trans base.abs_value_le
    obtain ⟨quotient, some⟩ := Option.ne_none_iff_exists'.mp (Decimal.rounded?_ne_none room)
    refine .inr ⟨base, quotient, rfl, some, ?_⟩
    rw [Option.bind_some, some, Option.bind_some]

/-- The two roundings move the number of lots by three parts in `10 ^ 28` at most, and two units. -/
theorem quotient_error (sized : m.Sized)
    (first : Decimal.rounded? (native.value * m.baseLotSize.toInt) = some base)
    (second : Decimal.rounded? (base.value / m.quoteLotSize.toInt) = some quotient) :
    |quotient.value - m.exactLots native.value| ≤
      (2 + 3 * |m.exactLots native.value|) / 10 ^ 28 := by
  have quote := one_le_toInt sized.quote
  have near := Decimal.abs_value_sub_le first
  have near' := Decimal.abs_value_sub_le second
  have size : |native.value * m.baseLotSize.toInt| =
      |m.exactLots native.value| * m.quoteLotSize.toInt := by
    rw [exactLots, sized.abs_div_quote, div_mul_cancel₀ _ sized.quote_pos.ne']
  have scaled : |base.value / m.quoteLotSize.toInt - m.exactLots native.value| ≤
      (1 / 2 + |m.exactLots native.value|) / 10 ^ 28 := by
    rw [exactLots, ← sub_div, sized.abs_div_quote, div_le_iff₀ sized.quote_pos, ← exactLots]
    rw [size] at near
    refine near.trans ?_
    rw [div_mul_eq_mul_div]
    apply div_le_div_of_nonneg_right _ (by positivity)
    linarith
  have triangle := abs_sub_abs_le_abs_sub (base.value / m.quoteLotSize.toInt) (m.exactLots native.value)
  have sum := abs_sub_le quotient.value (base.value / m.quoteLotSize.toInt) (m.exactLots native.value)
  have nonneg := abs_nonneg (m.exactLots native.value)
  rw [le_div_iff₀ (by positivity)] at near' scaled ⊢
  linarith

/-- A native price stands for its lots up to a part in a hundred million of one. -/
theorem exactLots_near (sized : m.Sized)
    (found : Decimal.rounded? (m.exactPrice price) = some native) :
    |m.exactLots native.value - price.toInt| ≤ 2 ^ 64 / 10 ^ 28 := by
  obtain ⟨nonneg, le⟩ := exactLots_one_mem sized
  have near := Decimal.abs_value_sub_le found
  have range := abs_toInt_le price
  rw [← exactLots_exactPrice sized, abs_exactLots sized] at range
  calc |m.exactLots native.value - price.toInt|
      = |native.value - m.exactPrice price| * m.exactLots 1 := by
        rw [← exactLots_exactPrice sized, exactLots_sub, abs_exactLots sized]
    _ ≤ (1 / 2 + |m.exactPrice price|) / 10 ^ 28 * m.exactLots 1 :=
        mul_le_mul_of_nonneg_right near nonneg
    _ ≤ 2 ^ 64 / 10 ^ 28 := by
        rw [div_mul_eq_mul_div, add_mul]
        apply div_le_div_of_nonneg_right _ (by positivity)
        linarith

/-- What comes back for a price is less than a lot off before it is cut off. -/
theorem quotient_near (sized : m.Sized)
    (found : Decimal.rounded? (m.exactPrice price) = some native)
    (first : Decimal.rounded? (native.value * m.baseLotSize.toInt) = some base)
    (second : Decimal.rounded? (base.value / m.quoteLotSize.toInt) = some quotient) :
    |quotient.value - price.toInt| < 1 := by
  have near := exactLots_near sized found
  have error := quotient_error sized first second
  have range := abs_toInt_le price
  have triangle := abs_sub_abs_le_abs_sub (m.exactLots native.value) price.toInt
  have sum := abs_sub_le quotient.value (m.exactLots native.value) price.toInt
  rw [le_div_iff₀ (by positivity)] at near error
  linarith

/-- The lots in a number that is less than a lot off. -/
theorem wholeLots?_of_reached (near : |quotient.value - price.toInt| < 1)
    (reached : |(price.toInt : ℚ)| ≤ |quotient.value|) : wholeLots? quotient = some price :=
  wholeLots?_eq_some_iff.mpr (Decimal.trunc_eq_iff.mpr ⟨reached, near⟩)

theorem wholeLots?_of_short (near : |quotient.value - price.toInt| < 1)
    (short : |quotient.value| < |(price.toInt : ℚ)|) :
    ∃ n, wholeLots? quotient = some n ∧ n.toInt = price.toInt - price.toInt.sign := by
  have lower := price.le_toInt
  have upper := price.toInt_lt
  -- A lot nearer to zero has 64 bits as well.
  have fits : (Int64.ofInt (price.toInt - price.toInt.sign)).toInt =
      price.toInt - price.toInt.sign := by
    rcases lt_trichotomy price.toInt 0 with neg | zero | pos
    · rw [Int.sign_eq_neg_one_of_neg neg]
      exact Int64.toInt_ofInt_of_le (by omega) (by omega)
    · rw [zero]
      rfl
    · rw [Int.sign_eq_one_of_pos pos]
      exact Int64.toInt_ofInt_of_le (by omega) (by omega)
  exact ⟨_, wholeLots?_eq_some_iff.mpr ((Decimal.trunc_of_short near short).trans fits.symm), fits⟩

/-- A price that is not less in size than the lots it stands for reaches them again. -/
theorem returned_of_le (sized : m.Sized)
    (found : Decimal.rounded? (m.exactPrice price) = some native)
    (le : |m.exactPrice price| ≤ |native.value|) :
    m.nativePriceToLot? native = some price ∨
      m.nativePriceToLot? native = none ∧ 2 ^ 96 - 1 < |native.value| * m.baseLotSize.toInt := by
  rcases nativePriceToLot?_cases sized native with failed | ⟨base, quotient, first, second, back⟩
  · exact .inr (by rwa [sized.abs_mul_base] at failed)
  have near := quotient_near sized found first second
  -- Neither rounding crosses an integer: not the native units, and then not the lots.
  have units : ((price.toInt * m.quoteLotSize.toInt).natAbs : ℚ) ≤ |base.value| := by
    refine Decimal.le_abs_value ?_ first
    rw [← abs_exactPrice_mul sized, sized.abs_mul_base]
    exact mul_le_mul_of_nonneg_right le sized.base_pos.le
  have whole : (price.toInt.natAbs : ℚ) ≤ |quotient.value| := by
    refine Decimal.le_abs_value ?_ second
    rw [sized.abs_div_quote, le_div_iff₀ sized.quote_pos]
    rwa [Int.natAbs_mul, Nat.cast_mul, Nat.cast_natAbs m.quoteLotSize.toInt, Int.cast_abs,
      abs_of_pos sized.quote_pos] at units
  rw [Nat.cast_natAbs, Int.cast_abs] at whole
  exact .inl (back.trans (wholeLots?_of_reached near whole))

theorem returned_of_lt (sized : m.Sized)
    (shown : m.lotToNativePrice? price = some native)
    (lt : |native.value| < |m.exactPrice price|) :
    ∃ n, m.nativePriceToLot? native = some n ∧
      (n = price ∨ n.toInt = price.toInt - price.toInt.sign) := by
  obtain ⟨found, small⟩ := lotToNativePrice?_eq_some sized shown
  rcases nativePriceToLot?_cases sized native with ⟨-, large⟩ | ⟨base, quotient, first, second, back⟩
  · have less := mul_lt_mul_of_pos_right lt sized.base_pos
    rw [sized.abs_mul_base] at large
    linarith
  · have near := quotient_near sized found first second
    rw [back]
    rcases le_or_gt |(price.toInt : ℚ)| |quotient.value| with reached | short
    · exact ⟨price, wholeLots?_of_reached near reached, .inl rfl⟩
    · obtain ⟨n, cut, less⟩ := wholeLots?_of_short near short
      exact ⟨n, cut, .inr less⟩

/-- What a native price is turned back into, by how it was rounded. One without rounding comes back
as its lots. One rounded away from zero does too, unless its native units no longer have 96 bits. One
rounded toward zero can lose a lot. -/
structure Returned (m : PerpMarket) (price : Int64) (native : Decimal) : Prop where
  exact : native.value = m.exactPrice price → m.nativePriceToLot? native = some price
  outward : |m.exactPrice price| < |native.value| → m.nativePriceToLot? native = some price ∨
    m.nativePriceToLot? native = none ∧ 2 ^ 96 - 8 ≤ (price.toInt * m.quoteLotSize.toInt).natAbs
  inward : |native.value| < |m.exactPrice price| → ∃ n, m.nativePriceToLot? native = some n ∧
    (n = price ∨ n.toInt = price.toInt - price.toInt.sign)

theorem returned_of_shown (sized : m.Sized) (shown : m.lotToNativePrice? price = some native) :
    m.Returned price native := by
  obtain ⟨found, small⟩ := lotToNativePrice?_eq_some sized shown
  refine ⟨fun same => ?_, fun more => ?_, returned_of_lt sized shown⟩
  · rcases returned_of_le sized found (le_of_eq (congrArg _ same.symm)) with back | ⟨-, large⟩
    · exact back
    · rw [same] at large
      linarith
  · refine (returned_of_le sized found more.le).imp_right fun ⟨failed, large⟩ => ⟨failed, ?_⟩
    have size := (le_abs_self _).trans (abs_toInt_le m.baseLotSize)
    have near := Decimal.abs_value_sub_le found
    have triangle := abs_sub_abs_le_abs_sub native.value (m.exactPrice price)
    have most : |native.value| * m.baseLotSize.toInt ≤
        (|m.exactPrice price| + (1 / 2 + |m.exactPrice price|) / 10 ^ 28) * m.baseLotSize.toInt :=
      mul_le_mul_of_nonneg_right (by linarith) sized.base_pos.le
    rw [add_mul, div_mul_eq_mul_div, add_mul] at most
    -- One part in `10 ^ 28` of 96 bits is less than eight units, and of half a lot less than one.
    have close : (2 ^ 96 : ℚ) < |m.exactPrice price| * m.baseLotSize.toInt + 9 := by linarith
    rw [abs_exactPrice_mul sized] at close
    have close : 2 ^ 96 < (price.toInt * m.quoteLotSize.toInt).natAbs + 9 := by
      exact_mod_cast close
    omega

-- A price that was rounded away from zero at the end of the 96 bits has no way back.
example : ((bare 36031773948 8).lotToNativePrice? 2198841573234892609).bind
    (bare 36031773948 8).nativePriceToLot? = none := rfl

variable {baseDecimals quoteDecimals : UInt8}

/-- The exponents of the two token units, one of them taken as the other's inverse. -/
theorem value_powerOfTen_mul_neg (exponent : Int) :
    (powerOfTen exponent).value * (powerOfTen (-exponent)).value = 1 := by
  rcases Int.eq_nat_or_neg exponent with ⟨n, rfl | rfl⟩
  · rw [value_powerOfTen, value_powerOfTen_neg, mul_one_div_cancel (by positivity)]
  · rw [neg_neg, value_powerOfTen, value_powerOfTen_neg, one_div_mul_cancel (by positivity)]

theorem value_powerOfTen_mem (exponent : Int) :
    0 < (powerOfTen exponent).value ∧ (powerOfTen exponent).value ≤ 10 ^ 28 := by
  rcases Int.eq_nat_or_neg exponent with ⟨n, rfl | rfl⟩
  · rw [value_powerOfTen]
    exact ⟨by positivity, pow_le_pow_right₀ (by norm_num) (Nat.min_le_right ..)⟩
  · rw [value_powerOfTen_neg]
    have one : (1 : ℚ) ≤ 10 ^ min n 28 := one_le_pow₀ (by norm_num)
    exact ⟨by positivity, (div_le_self zero_le_one one).trans (by norm_num)⟩

/-- Only the value of a native price counts. -/
theorem nativePriceToLot?_congr {other : Decimal} (same : other.value = native.value) :
    m.nativePriceToLot? other = m.nativePriceToLot? native := by
  simp only [nativePriceToLot?, Decimal.mul?_eq_rounded?, same]

/-- Tokens that are a native price come back as that price does. -/
theorem tokensToPrice?_of_value (same : tokens.value *
      (powerOfTen ((quoteDecimals.toNat : Int) - baseDecimals.toNat)).value = native.value) :
    m.tokensToPrice? tokens baseDecimals quoteDecimals = m.nativePriceToLot? native := by
  obtain ⟨other, found, value⟩ := native.exists_rounded?_value
  rw [tokensToPrice?, Decimal.mul?_eq_rounded?, same, found]
  exact nativePriceToLot?_congr value

/-- No place is lost where a base token has no fewer places than a quote token. -/
theorem value_of_tokens (le : quoteDecimals.toNat ≤ baseDecimals.toNat)
    (found : native.mul? (powerOfTen ((baseDecimals.toNat : Int) - quoteDecimals.toNat)) =
      some tokens) :
    tokens.value = native.value *
      (powerOfTen ((baseDecimals.toNat : Int) - quoteDecimals.toNat)).value := by
  have count : (baseDecimals.toNat : Int) - quoteDecimals.toNat =
      (baseDecimals.toNat - quoteDecimals.toNat : Nat) := by
    omega
  rw [count, Decimal.mul?_eq_rounded?, value_powerOfTen] at found
  rw [count, value_powerOfTen]
  exact Decimal.value_of_rounded?_mul_pow found

/-- A price in tokens without rounding comes from a native price without rounding. -/
theorem value_of_exact_tokens (sized : m.Sized)
    (shown : m.lotToNativePrice? price = some native)
    (found : native.mul? (powerOfTen ((baseDecimals.toNat : Int) - quoteDecimals.toNat)) =
      some tokens)
    (exact : tokens.value = m.exactPrice price *
      (powerOfTen ((baseDecimals.toNat : Int) - quoteDecimals.toNat)).value) :
    native.value = m.exactPrice price := by
  obtain ⟨rounded, -⟩ := lotToNativePrice?_eq_some sized shown
  rcases le_or_gt quoteDecimals.toNat baseDecimals.toNat with le | lt
  · have nonzero := (value_powerOfTen_mem ((baseDecimals.toNat : Int) - quoteDecimals.toNat)).1.ne'
    exact mul_right_cancel₀ nonzero ((value_of_tokens le found).symm.trans exact)
  · have count : (baseDecimals.toNat : Int) - quoteDecimals.toNat =
        -((quoteDecimals.toNat - baseDecimals.toNat : Nat) : Int) := by
      omega
    rw [count, value_powerOfTen_neg, mul_one_div, eq_div_iff (by positivity)] at exact
    rw [← exact] at rounded ⊢
    exact Decimal.value_of_rounded?_mul_pow rounded

/-- The way to tokens and back to a native price, with the size `unit` of the token unit. -/
theorem native_error {other : Decimal} {unit : ℚ} (pos : 0 < unit) (le : unit ≤ 10 ^ 28)
    (there : Decimal.rounded? (native.value / unit) = some tokens)
    (back : Decimal.rounded? (tokens.value * unit) = some other) :
    |other.value - native.value| ≤ (1 + 3 * |native.value| + unit / 2) / 10 ^ 28 := by
  have near := Decimal.abs_value_sub_le there
  have near' := Decimal.abs_value_sub_le back
  have scaled : |tokens.value * unit - native.value| ≤ (unit / 2 + |native.value|) / 10 ^ 28 := by
    have moved : tokens.value * unit - native.value =
        (tokens.value - native.value / unit) * unit := by
      rw [sub_mul, div_mul_cancel₀ _ pos.ne']
    have size : |native.value / unit| * unit = |native.value| := by
      rw [abs_div, abs_of_pos pos, div_mul_cancel₀ _ pos.ne']
    rw [moved, abs_mul, abs_of_pos pos]
    apply (mul_le_mul_of_nonneg_right near pos.le).trans_eq
    rw [div_mul_eq_mul_div, add_mul, size]
    ring
  have triangle := abs_sub_abs_le_abs_sub (tokens.value * unit) native.value
  have sum := abs_sub_le other.value (tokens.value * unit) native.value
  have nonneg := abs_nonneg native.value
  rw [le_div_iff₀ (by positivity)] at near' scaled ⊢
  linarith

/-- Its lots are off by half the lots in a unit of the last place, and a small part of one. -/
theorem lots_error {other : Decimal} {unit : ℚ} (sized : m.Sized) (pos : 0 < unit)
    (le : unit ≤ 10 ^ 28) (found : Decimal.rounded? (m.exactPrice price) = some native)
    (there : Decimal.rounded? (native.value / unit) = some tokens)
    (back : Decimal.rounded? (tokens.value * unit) = some other) :
    |m.exactLots other.value - price.toInt| ≤ m.exactLots unit / 10 ^ 28 / 2 + 2 ^ 66 / 10 ^ 28 := by
  obtain ⟨nonneg, most⟩ := exactLots_one_mem sized
  have near := exactLots_near sized found
  have moved := mul_le_mul_of_nonneg_right (native_error pos le there back) nonneg
  rw [← abs_exactLots sized, ← exactLots_sub, div_mul_eq_mul_div, add_mul, add_mul,
    mul_assoc 3, ← abs_exactLots sized, div_mul_eq_mul_div, ← exactLots_eq m unit] at moved
  have range := abs_toInt_le price
  have triangle := abs_sub_abs_le_abs_sub (m.exactLots native.value) price.toInt
  have sum := abs_sub_le (m.exactLots other.value) (m.exactLots native.value) price.toInt
  have split : m.exactLots unit / 10 ^ 28 / 2 = m.exactLots unit / 2 / 10 ^ 28 := div_right_comm ..
  rw [split, ← add_div, le_div_iff₀ (by positivity)]
  rw [le_div_iff₀ (by positivity)] at near moved
  linarith

/-- Cutting off the last part of a lot adds less than one to the error. -/
theorem nativePriceToLot?_error {other : Decimal} {last : ℚ} {n : Int64} (sized : m.Sized)
    (le : last ≤ 2 ^ 63)
    (near : |m.exactLots other.value - price.toInt| ≤ last / 2 + 2 ^ 66 / 10 ^ 28)
    (back : m.nativePriceToLot? other = some n) :
    |(n.toInt : ℚ) - price.toInt| < 5 / 4 + last / 2 := by
  rcases nativePriceToLot?_cases sized other with ⟨none, -⟩ | ⟨base, quotient, first, second, cut⟩
  · cases none.symm.trans back
  have error := quotient_error sized first second
  have short := quotient.abs_value_sub_trunc_lt
  rw [wholeLots?_eq_some_iff.mp (cut.symm.trans back), abs_sub_comm] at short
  have range := abs_toInt_le price
  have triangle := abs_sub_abs_le_abs_sub (m.exactLots other.value) price.toInt
  have sum := abs_sub_le (n.toInt : ℚ) quotient.value price.toInt
  have sum' := abs_sub_le quotient.value (m.exactLots other.value) price.toInt
  rw [le_div_iff₀ (by positivity)] at error
  linarith

/-- Between whole lots, a quarter of one makes no difference. -/
theorem lots_apart_le {n k : Int} {last : ℚ} (nonneg : 0 ≤ last)
    (near : |(n : ℚ) - k| < 5 / 4 + last / 2) : |(n : ℚ) - k| ≤ 1 + last := by
  rcases le_or_gt (1 / 2) last with large | small
  · linarith
  · have two : |(n : ℚ) - k| < 2 := by linarith
    have two : |n - k| < 2 := by exact_mod_cast two
    have one : |(n : ℚ) - k| ≤ 1 := by exact_mod_cast Int.lt_add_one_iff.mp two
    linarith

/-- What comes back for a price in tokens is off by a lot and the lots in a unit of the last of its
28 places at most. -/
theorem tokens_error (sized : m.Sized) (shown : m.lotToNativePrice? price = some native)
    (found : native.mul? (powerOfTen ((baseDecimals.toNat : Int) - quoteDecimals.toNat)) =
      some tokens) {n : Int64} (back : m.tokensToPrice? tokens baseDecimals quoteDecimals = some n) :
    |(n.toInt : ℚ) - price.toInt| ≤ 1 +
      m.exactLots (powerOfTen ((quoteDecimals.toNat : Int) - baseDecimals.toNat)).value / 10 ^ 28 := by
  obtain ⟨pos, le⟩ := value_powerOfTen_mem ((quoteDecimals.toNat : Int) - baseDecimals.toNat)
  have inverse := value_powerOfTen_mul_neg ((quoteDecimals.toNat : Int) - baseDecimals.toNat)
  rw [neg_sub] at inverse
  -- In units of a token the way there is a division and the way back a multiplication.
  rw [Decimal.mul?_eq_rounded?, eq_one_div_of_mul_eq_one_right inverse, mul_one_div] at found
  obtain ⟨other, toNative, toLots⟩ := Option.bind_eq_some_iff.mp back
  rw [Decimal.mul?_eq_rounded?] at toNative
  generalize (powerOfTen ((quoteDecimals.toNat : Int) - baseDecimals.toNat)).value = unit at *
  obtain ⟨nonneg, most⟩ := exactLots_one_mem sized
  have last_le : m.exactLots unit / 10 ^ 28 ≤ 2 ^ 63 := by
    rw [div_le_iff₀ (by positivity), exactLots_eq, mul_comm]
    exact mul_le_mul most le pos.le (by positivity)
  have last_nonneg : 0 ≤ m.exactLots unit / 10 ^ 28 := by
    rw [exactLots_eq]
    positivity
  have near := lots_error sized pos le (lotToNativePrice?_eq_some sized shown).1 found toNative
  exact lots_apart_le last_nonneg (nativePriceToLot?_error sized last_le near toLots)

/-- In a market whose lots have sizes, prices come back as the lots they stand for, if they were not
rounded on the way, neither to native units nor to tokens. -/
theorem prices_return (base : 0 < m.baseLotSize) (quote : 0 < m.quoteLotSize) (price : Int64) :
    (∀ native, m.lotToNativePrice? price = some native → m.Returned price native) ∧
    ∀ (baseDecimals quoteDecimals : UInt8) (tokens : Decimal),
      m.priceToTokens? price baseDecimals quoteDecimals = some tokens →
      (tokens.value = m.exactPrice price *
          (powerOfTen ((baseDecimals.toNat : Int) - quoteDecimals.toNat)).value →
        m.tokensToPrice? tokens baseDecimals quoteDecimals = some price) ∧
      (quoteDecimals ≤ baseDecimals → ∃ native, m.lotToNativePrice? price = some native ∧
        m.tokensToPrice? tokens baseDecimals quoteDecimals = m.nativePriceToLot? native) ∧
      ∀ n, m.tokensToPrice? tokens baseDecimals quoteDecimals = some n →
        |(n.toInt : ℚ) - price.toInt| ≤ 1 + m.exactLots
          (powerOfTen ((quoteDecimals.toNat : Int) - baseDecimals.toNat)).value / 10 ^ 28 := by
  have sized : m.Sized := ⟨quote, base⟩
  refine ⟨fun native shown => returned_of_shown sized shown, ?_⟩
  intro baseDecimals quoteDecimals tokens given
  obtain ⟨native, shown, found⟩ := Option.bind_eq_some_iff.mp given
  have inverse (same : tokens.value = native.value *
      (powerOfTen ((baseDecimals.toNat : Int) - quoteDecimals.toNat)).value) :
      m.tokensToPrice? tokens baseDecimals quoteDecimals = m.nativePriceToLot? native := by
    apply tokensToPrice?_of_value
    rw [same, ← neg_sub (baseDecimals.toNat : Int), mul_assoc, value_powerOfTen_mul_neg, mul_one]
  refine ⟨fun exact => ?_, fun le => ?_, fun n back => tokens_error sized shown found back⟩
  · have same := value_of_exact_tokens sized shown found exact
    rw [inverse (by rw [exact, same])]
    exact (returned_of_shown sized shown).exact same
  · exact ⟨native, shown, inverse (value_of_tokens (UInt8.le_iff_toNat_le.mp le) found)⟩

def fifteen : Decimal := ⟨15 * 10 ^ 27, 27, by decide, by decide⟩

/-- Fifteen hundred lots of a hundred quote units, for ten million base units each, are a price of
fifteen tokens. -/
theorem prices_return_of_bare :
    0 < (bare 100 10000000).baseLotSize ∧ 0 < (bare 100 10000000).quoteLotSize ∧
      (bare 100 10000000).priceToTokens? 1500 9 6 = some fifteen ∧
      (bare 100 10000000).tokensToPrice? fifteen 9 6 = some 1500 := by
  have base : 0 < (bare 100 10000000).baseLotSize := by decide
  have quote : 0 < (bare 100 10000000).quoteLotSize := by decide
  have shown : (bare 100 10000000).priceToTokens? 1500 9 6 = some fifteen := rfl
  obtain ⟨back, -, -⟩ := (prices_return base quote 1500).2 9 6 fifteen shown
  refine ⟨base, quote, shown, back ?_⟩
  have thousand : (powerOfTen (((9 : UInt8).toNat : Int) - (6 : UInt8).toNat)).value = 10 ^ 3 :=
    value_powerOfTen 3
  have price : (bare 100 10000000).exactPrice 1500 = ((1500 : Int) : ℚ) * (100 : Int) / (10000000 : Int) :=
    rfl
  rw [thousand, price, Decimal.value_eq, fifteen]
  norm_num

/-- Prices do not always come back as the lots they stand for. A third of a native unit falls short
of its lot, and of six tenths of a unit in the 28th place of a token a whole unit is made. -/
theorem prices_differ :
    (¬∀ (m : PerpMarket) (price : Int64) (native : Decimal), 0 < m.baseLotSize →
      0 < m.quoteLotSize → m.lotToNativePrice? price = some native →
      m.nativePriceToLot? native = some price) ∧
    ¬∀ (m : PerpMarket) (price : Int64) (baseDecimals quoteDecimals : UInt8) (tokens : Decimal),
      0 < m.baseLotSize → 0 < m.quoteLotSize →
      m.priceToTokens? price baseDecimals quoteDecimals = some tokens →
      m.tokensToPrice? tokens baseDecimals quoteDecimals = some price := by
  constructor
  · intro inverse
    obtain ⟨third, shown⟩ : ∃ third, (bare 1 3).lotToNativePrice? 1 = some third := ⟨_, rfl⟩
    have short : ((bare 1 3).lotToNativePrice? 1).bind (bare 1 3).nativePriceToLot? = some 0 := rfl
    rw [shown, Option.bind_some, inverse _ _ _ (by decide) (by decide) shown] at short
    exact absurd short (by decide)
  · intro inverse
    obtain ⟨unit, shown⟩ : ∃ unit, (bare 1 10).priceToTokens? 6 0 28 = some unit := ⟨_, rfl⟩
    have more : ((bare 1 10).priceToTokens? 6 0 28).bind
        ((bare 1 10).tokensToPrice? · 0 28) = some 10 := rfl
    rw [shown, Option.bind_some, inverse _ _ _ _ _ (by decide) (by decide) shown] at more
    exact absurd more (by decide)

end PerpDex.PerpMarket
