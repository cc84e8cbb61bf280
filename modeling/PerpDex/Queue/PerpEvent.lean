import PerpDex.Error
import PerpDex.Fixed.Signed
import PerpDex.Order
import PerpDex.Timestamp

/-! Events of a perp market. A slot of 200 bytes is an event whatever it holds: what is not
understood is an unknown event that keeps its tag and owner. -/
namespace PerpDex

/-- A taker order met a resting order. -/
structure PerpFill where
  slot : Nat
  takerSide : Side
  makerSlot : UInt8
  /-- The resting order left the book with this fill. -/
  makerOut : Bool
  version : UInt8
  timestamp : Timestamp
  sequence : UInt64
  maker : Address
  makerOrderId : BitVec 128
  makerClientOrderId : UInt64
  makerFee : Decimal
  bestInitial : Int64
  makerTimestamp : Timestamp
  taker : Address
  takerOrderId : BitVec 128
  takerClientOrderId : UInt64
  takerFee : Decimal
  price : Int64
  quantity : Int64

/-- An order left the book without a fill. -/
structure PerpOut where
  slot : Nat
  side : Side
  ownerSlot : UInt8
  timestamp : Timestamp
  sequence : UInt64
  owner : Address
  quantity : Int64

structure PerpLiquidation where
  slot : Nat
  timestamp : Timestamp
  sequence : UInt64
  liquidatee : Address
  liquidator : Address
  price : Decimal
  quantity : Int64
  liquidationFee : Decimal

structure UnknownEvent where
  slot : Nat
  tag : UInt8
  owner : Address
deriving DecidableEq

inductive PerpEvent where
  | fill (event : PerpFill)
  | out (event : PerpOut)
  | liquidate (event : PerpLiquidation)
  | unknown (event : UnknownEvent)

namespace PerpEvent

def size : Nat := 200

def readFill (slot : Nat) (takerSide : Side) (data : Bytes) : PerpFill where
  slot
  takerSide
  makerSlot := Bytes.u8At data 2
  makerOut := Bytes.flagAt data 3
  version := Bytes.u8At data 4
  timestamp := ⟨Bytes.u64At data 8⟩
  sequence := Bytes.u64At data 16
  maker := Address.readAt data 24
  makerOrderId := Bytes.word128At data 56
  makerClientOrderId := Bytes.u64At data 72
  makerFee := SignedFixed.readAt data 80
  bestInitial := Bytes.i64At data 96
  makerTimestamp := ⟨Bytes.u64At data 104⟩
  taker := Address.readAt data 112
  takerOrderId := Bytes.word128At data 144
  takerClientOrderId := Bytes.u64At data 160
  takerFee := SignedFixed.readAt data 168
  price := Bytes.i64At data 184
  quantity := Bytes.i64At data 192

def readOut (slot : Nat) (side : Side) (data : Bytes) : PerpOut where
  slot
  side
  ownerSlot := Bytes.u8At data 2
  timestamp := ⟨Bytes.u64At data 8⟩
  sequence := Bytes.u64At data 16
  owner := Address.readAt data 24
  quantity := Bytes.i64At data 56

def readLiquidation (slot : Nat) (data : Bytes) : PerpLiquidation where
  slot
  timestamp := ⟨Bytes.u64At data 8⟩
  sequence := Bytes.u64At data 16
  liquidatee := Address.readAt data 24
  liquidator := Address.readAt data 56
  price := SignedFixed.readAt data 88
  quantity := Bytes.i64At data 104
  liquidationFee := SignedFixed.readAt data 112

def readUnknown (slot : Nat) (data : Bytes) : UnknownEvent :=
  ⟨slot, Bytes.u8At data 0, Address.readAt data 24⟩

/-- The event in the bytes of a slot. The first byte tells the kind; a fill or an out with an
unknown side is an unknown event. -/
def read (slot : Nat) (data : Bytes) : PerpEvent :=
  match (Bytes.u8At data 0).toNat, Side.ofByte? (Bytes.u8At data 1) with
  | 0, some side => .fill (readFill slot side data)
  | 1, some side => .out (readOut slot side data)
  | 2, _ => .liquidate (readLiquidation slot data)
  | _, _ => .unknown (readUnknown slot data)

def decode (slot : Nat) (data : Bytes) : Except Error PerpEvent := do
  checkSize "PerpEvent" size data
  return read slot data

def slot : PerpEvent → Nat
  | fill e => e.slot
  | out e => e.slot
  | liquidate e => e.slot
  | unknown e => e.slot

def isFill : PerpEvent → Bool
  | fill _ => true
  | _ => false

def sequence? : PerpEvent → Option UInt64
  | fill e => some e.sequence
  | out e => some e.sequence
  | liquidate e => some e.sequence
  | unknown _ => none

end PerpEvent
end PerpDex
