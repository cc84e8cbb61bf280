import PerpDex.Error
import PerpDex.Fixed.Signed
import PerpDex.Timestamp

/-! Perp market accounts, and the conversions between lots, native units and whole tokens. A
conversion has no result where a step overflows or divides by zero. -/
namespace PerpDex

structure LiquidityMining where
  rate : Decimal
  maxDepthBps : Decimal
  periodStart : Timestamp
  targetPeriodLength : UInt64
  mngoLeft : UInt64
  mngoPerPeriod : UInt64

structure PerpMarket where
  header : Header
  group : Address
  bids : Address
  asks : Address
  eventQueue : Address
  /-- Native quote units for a lot. -/
  quoteLotSize : Int64
  /-- Native base units for a lot. -/
  baseLotSize : Int64
  longFunding : Decimal
  shortFunding : Decimal
  openInterest : Int64
  lastUpdated : Timestamp
  sequence : UInt64
  feesAccrued : Decimal
  liquidityMining : LiquidityMining
  mngoVault : Address

namespace PerpMarket

def size : Nat := 320

def decode (data : Bytes) : Except Error PerpMarket := do
  checkSize "PerpMarket" size data
  let header := Header.read data
  header.check .perpMarket
  return {
    header
    group := Address.readAt data 8
    bids := Address.readAt data 40
    asks := Address.readAt data 72
    eventQueue := Address.readAt data 104
    quoteLotSize := Bytes.i64At data 136
    baseLotSize := Bytes.i64At data 144
    longFunding := SignedFixed.readAt data 152
    shortFunding := SignedFixed.readAt data 168
    openInterest := Bytes.i64At data 184
    lastUpdated := ⟨Bytes.u64At data 192⟩
    sequence := Bytes.u64At data 200
    feesAccrued := SignedFixed.readAt data 208
    liquidityMining := {
      rate := SignedFixed.readAt data 224
      maxDepthBps := SignedFixed.readAt data 240
      periodStart := ⟨Bytes.u64At data 256⟩
      targetPeriodLength := Bytes.u64At data 264
      mngoLeft := Bytes.u64At data 272
      mngoPerPeriod := Bytes.u64At data 280 }
    mngoVault := Address.readAt data 288 }

def lots (n : Int64) : Decimal :=
  Decimal.ofInt n.toInt (by have := n.toInt_lt; have := n.le_toInt; omega)

theorem pow_lt {k : Nat} (h : k ≤ 28) : 10 ^ k < 2 ^ 96 :=
  Nat.lt_of_le_of_lt (Nat.pow_le_pow_right (by omega) h) (by decide)

/-- The power of ten, with the exponent kept within 28 places on both sides. -/
def powerOfTen (exponent : Int) : Decimal :=
  if 0 ≤ exponent then
    Decimal.ofInt (10 ^ min exponent.natAbs 28 : Nat) (pow_lt (Nat.min_le_right ..))
  else ⟨1, min exponent.natAbs 28, Decimal.one.coeff_lt, Nat.min_le_right ..⟩

def wholeLots? (x : Decimal) : Option Int64 :=
  if -(2 ^ 63) ≤ x.trunc ∧ x.trunc < 2 ^ 63 then some (Int64.ofInt x.trunc) else none

/-- The price in native quote units for a native base unit. -/
def lotToNativePrice? (m : PerpMarket) (price : Int64) : Option Decimal := do
  let quote ← (lots price).mul? (lots m.quoteLotSize)
  quote.div? (lots m.baseLotSize)

def nativePriceToLot? (m : PerpMarket) (price : Decimal) : Option Int64 := do
  let base ← price.mul? (lots m.baseLotSize)
  let quote ← base.div? (lots m.quoteLotSize)
  wholeLots? quote

def priceToTokens? (m : PerpMarket) (price : Int64) (baseDecimals quoteDecimals : UInt8) :
    Option Decimal := do
  let native ← m.lotToNativePrice? price
  native.mul? (powerOfTen ((baseDecimals.toNat : Int) - quoteDecimals.toNat))

def tokensToPrice? (m : PerpMarket) (price : Decimal) (baseDecimals quoteDecimals : UInt8) :
    Option Int64 := do
  let native ← price.mul? (powerOfTen ((quoteDecimals.toNat : Int) - baseDecimals.toNat))
  m.nativePriceToLot? native

def quantityToTokens? (m : PerpMarket) (quantity : Int64) (baseDecimals : UInt8) :
    Option Decimal := do
  let native ← (lots quantity).mul? (lots m.baseLotSize)
  native.mul? (powerOfTen (-(baseDecimals.toNat : Int)))

def tokensToQuantity? (m : PerpMarket) (quantity : Decimal) (baseDecimals : UInt8) :
    Option Int64 := do
  let native ← quantity.mul? (powerOfTen baseDecimals.toNat)
  let whole ← native.div? (lots m.baseLotSize)
  wholeLots? whole

end PerpMarket
end PerpDex
