import PerpDex.Error
import PerpDex.Order
import PerpDex.Queue.PerpEvent

/-! Events of a spot market. A slot of 88 bytes is an event whatever it holds. -/
namespace PerpDex

/-- The flags of an event, five bits of a byte. -/
structure EventFlags where
  bits : UInt8
deriving DecidableEq

namespace EventFlags

def fill : UInt8 := 1

def out : UInt8 := 2

def bid : UInt8 := 4

def maker : UInt8 := 8

def releaseFunds : UInt8 := 16

/-- Bits that stand for no flag are dropped. -/
def ofByte (byte : UInt8) : EventFlags :=
  ⟨byte &&& (fill ||| out ||| bid ||| maker ||| releaseFunds)⟩

def has (flags : EventFlags) (flag : UInt8) : Bool := flags.bits &&& flag != 0

def side (flags : EventFlags) : Side := if flags.has bid then .bid else .ask

def ofSide : Side → EventFlags
  | .bid => ⟨bid⟩
  | .ask => ⟨0⟩

@[simp] theorem side_ofSide (s : Side) : (ofSide s).side = s := by cases s <;> rfl

end EventFlags

/-- A fill or an out; both carry the same fields. -/
structure SpotRecord where
  slot : Nat
  flags : EventFlags
  side : Side
  maker : Bool
  releaseFunds : Bool
  ownerSlot : UInt8
  feeTier : UInt8
  quantityReleased : UInt64
  quantityPaid : UInt64
  feeOrRebate : UInt64
  orderId : BitVec 128
  /-- The high half of the order id. -/
  price : UInt64
  owner : Address
  clientOrderId : UInt64
deriving DecidableEq

inductive SpotEvent where
  | fill (record : SpotRecord)
  | out (record : SpotRecord)
  | unknown (event : UnknownEvent)
deriving DecidableEq

namespace SpotEvent

def size : Nat := 88

def readRecord (slot : Nat) (flags : EventFlags) (data : Bytes) : SpotRecord where
  slot
  flags
  side := flags.side
  maker := flags.has EventFlags.maker
  releaseFunds := flags.has EventFlags.releaseFunds
  ownerSlot := Bytes.u8At data 1
  feeTier := Bytes.u8At data 2
  quantityReleased := Bytes.u64At data 8
  quantityPaid := Bytes.u64At data 16
  feeOrRebate := Bytes.u64At data 24
  orderId := Bytes.word128At data 32
  price := (OrderKey.ofWord (Bytes.word128At data 32)).price
  owner := Address.readAt data 48
  clientOrderId := Bytes.u64At data 80

/-- The event in the bytes of a slot. The fill flag goes before the out flag; a slot with neither
is an unknown event whose tag is the raw byte. -/
def read (slot : Nat) (data : Bytes) : SpotEvent :=
  let flags := EventFlags.ofByte (Bytes.u8At data 0)
  if flags.has EventFlags.fill then .fill (readRecord slot flags data)
  else if flags.has EventFlags.out then .out (readRecord slot flags data)
  else .unknown ⟨slot, Bytes.u8At data 0, Address.readAt data 48⟩

def decode (slot : Nat) (data : Bytes) : Except Error SpotEvent := do
  checkSize "SpotEvent" size data
  return read slot data

def slot : SpotEvent → Nat
  | fill record => record.slot
  | out record => record.slot
  | unknown event => event.slot

def isFill : SpotEvent → Bool
  | fill _ => true
  | _ => false

end SpotEvent
end PerpDex
