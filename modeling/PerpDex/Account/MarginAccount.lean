import PerpDex.Account.Group
import PerpDex.Order
import PerpDex.Text.Utf8

/-! Margin accounts: the balances, positions and open perp orders of one owner. The orders stand
in 64 slots, spread over parallel tables; a slot whose market is 255 is free. -/
namespace PerpDex

structure PerpPosition where
  basePosition : Int64
  quotePosition : Decimal
  longSettledFunding : Decimal
  shortSettledFunding : Decimal
  bidsQuantity : Int64
  asksQuantity : Int64
  takerBase : Int64
  takerQuote : Int64
  mngoAccrued : UInt64

namespace PerpPosition

def readAt (data : Bytes) (offset : Nat) : PerpPosition where
  basePosition := Bytes.i64At data offset
  quotePosition := SignedFixed.readAt data (offset + 8)
  longSettledFunding := SignedFixed.readAt data (offset + 24)
  shortSettledFunding := SignedFixed.readAt data (offset + 40)
  bidsQuantity := Bytes.i64At data (offset + 56)
  asksQuantity := Bytes.i64At data (offset + 64)
  takerBase := Bytes.i64At data (offset + 72)
  takerQuote := Bytes.i64At data (offset + 80)
  mngoAccrued := Bytes.u64At data (offset + 88)

def isEmpty (p : PerpPosition) : Bool :=
  p.basePosition == 0 && p.quotePosition.coeff == 0 && p.bidsQuantity == 0 &&
    p.asksQuantity == 0 && p.takerBase == 0 && p.takerQuote == 0

end PerpPosition

structure PerpOrder where
  slot : Nat
  market : Nat
  side : Side
  orderId : BitVec 128
  clientOrderId : UInt64
deriving DecidableEq

structure MarginAccount where
  header : Header
  group : Address
  owner : Address
  inMarginBasket : List Bool
  numInMarginBasket : UInt8
  deposits : List Decimal
  borrows : List Decimal
  spotOpenOrders : List (Option Address)
  perpPositions : List PerpPosition
  perpOrders : List PerpOrder
  msrmAmount : UInt64
  beingLiquidated : Bool
  isBankrupt : Bool
  info : Bytes
  advancedOrders : Option Address
  notUpgradable : Bool
  delegate : Option Address

namespace MarginAccount

def size : Nat := 4296

def orderSlots : Nat := 64

def freeSlot : UInt8 := 255

def orderMarket (data : Bytes) (slot : Nat) : UInt8 := Bytes.u8At data (2520 + slot)

def orderSide (data : Bytes) (slot : Nat) : UInt8 := Bytes.u8At data (2584 + slot)

def readOrder (data : Bytes) (slot : Nat) (side : Side) : PerpOrder where
  slot
  market := (orderMarket data slot).toNat
  side
  orderId := Bytes.word128At data (2648 + 16 * slot)
  clientOrderId := Bytes.u64At data (3672 + 8 * slot)

/-- The orders of the slots that are not free; the first of them with an unknown side is
reported. -/
def readOrders (data : Bytes) : (slots : List Nat) → Except Error (List PerpOrder)
  | [] => .ok []
  | slot :: slots =>
    if orderMarket data slot = freeSlot then readOrders data slots
    else
      match Side.ofByte? (orderSide data slot) with
      | none => .error (.unknownTag .side (orderSide data slot).toUInt32)
      | some side => do
        let orders ← readOrders data slots
        return readOrder data slot side :: orders

def decode (data : Bytes) : Except Error MarginAccount := do
  checkSize "MarginAccount" size data
  let header := Header.read data
  header.check .marginAccount
  let perpOrders ← readOrders data (List.range orderSlots)
  return {
    header
    group := Address.readAt data 8
    owner := Address.readAt data 40
    inMarginBasket := Bytes.table data 72 1 marketSlots Bytes.flagAt
    numInMarginBasket := Bytes.u8At data 87
    deposits := Bytes.table data 88 16 tokenSlots SignedFixed.readAt
    borrows := Bytes.table data 344 16 tokenSlots SignedFixed.readAt
    spotOpenOrders := Bytes.table data 600 32 marketSlots fun data offset =>
      (Address.readAt data offset).present?
    perpPositions := Bytes.table data 1080 96 marketSlots PerpPosition.readAt
    perpOrders
    msrmAmount := Bytes.u64At data 4184
    beingLiquidated := Bytes.flagAt data 4192
    isBankrupt := Bytes.flagAt data 4193
    info := Bytes.slice data 4194 32
    advancedOrders := (Address.readAt data 4226).present?
    notUpgradable := Bytes.flagAt data 4258
    delegate := (Address.readAt data 4259).present? }

/-- The text in `info`, which zero bytes fill up. -/
def name (account : MarginAccount) : String :=
  Utf8.decode (account.info.reverse.dropWhile (· == 0)).reverse

def ordersOn (account : MarginAccount) (market : Nat) : List PerpOrder :=
  account.perpOrders.filter (·.market = market)

/-- The order of the lowest slot with a client's id. -/
def orderByClientId? (account : MarginAccount) (id : UInt64) : Option PerpOrder :=
  account.perpOrders.find? (·.clientOrderId = id)

end MarginAccount
end PerpDex
