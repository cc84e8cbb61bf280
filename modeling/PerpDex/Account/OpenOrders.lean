import PerpDex.Framing
import PerpDex.Order

/-! Open orders accounts of the spot market. Two masks tell for each of the 128 slots whether it is
free and whether it holds a bid. -/
namespace PerpDex

structure SpotOrder where
  slot : Nat
  side : Side
  orderId : BitVec 128
  /-- The high half of the order id. -/
  price : UInt64
  clientId : UInt64
deriving DecidableEq

structure OpenOrders where
  accountFlags : UInt64
  market : Address
  owner : Address
  baseFree : UInt64
  baseTotal : UInt64
  quoteFree : UInt64
  quoteTotal : UInt64
  freeSlots : BitVec 128
  bidSlots : BitVec 128
  orders : List SpotOrder
  referrerRebates : UInt64
deriving DecidableEq

namespace OpenOrders

def orderSlots : Nat := 128

def bodySize : Nat := 3216

def size : Nat := Framing.head.length + bodySize + Framing.tail.length

def readOrder (body : Bytes) (slot : Nat) : SpotOrder where
  slot
  side := if (Bytes.word128At body 120).getLsbD slot then .bid else .ask
  orderId := Bytes.word128At body (136 + 16 * slot)
  price := (OrderKey.ofWord (Bytes.word128At body (136 + 16 * slot))).price
  clientId := Bytes.u64At body (2184 + 8 * slot)

def readBody (body : Bytes) : OpenOrders where
  accountFlags := Bytes.u64At body 0
  market := Address.readAt body 8
  owner := Address.readAt body 40
  baseFree := Bytes.u64At body 72
  baseTotal := Bytes.u64At body 80
  quoteFree := Bytes.u64At body 88
  quoteTotal := Bytes.u64At body 96
  freeSlots := Bytes.word128At body 104
  bidSlots := Bytes.word128At body 120
  orders := ((List.range orderSlots).filter fun slot =>
    !(Bytes.word128At body 104).getLsbD slot).map (readOrder body)
  referrerRebates := Bytes.u64At body 3208

/-- The size of the whole account is checked before the markers. -/
def decode (data : Bytes) : Except Error OpenOrders := do
  checkSize "OpenOrders" size data
  let body ← Framing.unwrap data
  return readBody body

/-- Slots beyond the last one are not free. -/
def isSlotFree (account : OpenOrders) (slot : Nat) : Bool := account.freeSlots.getLsbD slot

def baseLocked (account : OpenOrders) : UInt64 :=
  UInt64.ofNat (account.baseTotal.toNat - account.baseFree.toNat)

def quoteLocked (account : OpenOrders) : UInt64 :=
  UInt64.ofNat (account.quoteTotal.toNat - account.quoteFree.toNat)

end OpenOrders
end PerpDex
