import PerpDex.Error
import PerpDex.Order
import PerpDex.Timestamp

/-! The slots of a book's arena. A slot of 88 bytes is a resting order, a branch of the tree that
ranks the orders, or unused. Encoding inverts decoding up to the padding of branches. -/
namespace PerpDex

abbrev Handle := UInt32

structure Leaf where
  ownerSlot : UInt8
  type : OrderType
  version : UInt8
  /-- Seconds from `timestamp` to the expiry, zero for an order that never expires. -/
  timeInForce : UInt8
  key : OrderKey
  owner : Address
  quantity : Int64
  clientOrderId : UInt64
  bestInitial : Int64
  timestamp : Timestamp
deriving DecidableEq, Inhabited

namespace Leaf

def orderId (leaf : Leaf) : BitVec 128 := leaf.key.toWord

/-- The price of the key, read as a signed number. -/
def price (leaf : Leaf) : Int64 := leaf.key.price.toInt64

/-- The first second at which the order is no longer valid; sums beyond 64 bits stop at the end. -/
def expiresAt (leaf : Leaf) : Option UInt64 :=
  if leaf.timeInForce = 0 then none
  else
    let expiry := leaf.timestamp.seconds.toNat + leaf.timeInForce.toNat
    some (UInt64.ofNat (min expiry (2 ^ 64 - 1)))

def isValid (leaf : Leaf) (now : UInt64) : Bool :=
  match leaf.expiresAt with
  | none => true
  | some expiry => now < expiry

end Leaf

/-- A branch of the tree: all keys below it share the first `prefixLength` bits of `key`, and the
next bit tells the left ones from the right ones. -/
structure Branch where
  prefixLength : UInt32
  key : BitVec 128
  left : Handle
  right : Handle
  /-- The earliest expiry on the left, the greatest number if nothing expires there. -/
  leftExpiry : UInt64
  rightExpiry : UInt64
deriving DecidableEq, Inhabited

namespace Branch

/-- The child for keys whose critical bit is `bit`. -/
def child (b : Branch) (bit : Bool) : Handle := if bit then b.right else b.left

/-- The bit of a key, counted from the top, that picks the child. -/
def criticalBit (b : Branch) (key : BitVec 128) : Bool :=
  key.getMsbD (min b.prefixLength.toNat 127)

/-- The child for a key, and whether it is the right one. -/
def walkDown (b : Branch) (key : BitVec 128) : Handle × Bool :=
  (b.child (b.criticalBit key), b.criticalBit key)

end Branch

def sharedBits (a b : BitVec 128) : Nat := (a ^^^ b).clz.toNat

inductive Node where
  | uninitialized
  | inner (branch : Branch)
  | leaf (leaf : Leaf)
  /-- A released slot and the next one of the free list. -/
  | free (next : Handle)
  /-- The end of the free list. -/
  | lastFree (next : Handle)
deriving DecidableEq, Inhabited

namespace Node

def size : Nat := 88

def tag : Node → NodeTag
  | uninitialized => .uninitialized
  | inner _ => .inner
  | leaf _ => .leaf
  | free _ => .free
  | lastFree _ => .lastFree

def readBranch (data : Bytes) : Branch where
  prefixLength := Bytes.u32At data 4
  key := Bytes.word128At data 8
  left := Bytes.u32At data 24
  right := Bytes.u32At data 28
  leftExpiry := Bytes.u64At data 32
  rightExpiry := Bytes.u64At data 40

def readLeaf (type : OrderType) (data : Bytes) : Leaf where
  ownerSlot := Bytes.u8At data 4
  type
  version := Bytes.u8At data 6
  timeInForce := Bytes.u8At data 7
  key := OrderKey.readAt data 8
  owner := Address.readAt data 24
  quantity := Bytes.i64At data 56
  clientOrderId := Bytes.u64At data 64
  bestInitial := Bytes.i64At data 72
  timestamp := ⟨Bytes.u64At data 80⟩

/-- A branch may carry any bytes, a leaf any but an unknown order type; the bytes behind the
fields of an unused slot are zero. -/
def decode (data : Bytes) : Except Error Node := do
  checkSize "Node" size data
  let word := Bytes.u32At data 0
  match NodeTag.ofWord? word with
  | none => throw (.unknownTag .node word)
  | some .uninitialized =>
    if Bytes.isZero (data.drop 4) then return uninitialized
    else throw (.reservedBytes .uninitialized)
  | some .inner => return inner (readBranch data)
  | some .leaf =>
    let byte := Bytes.u8At data 5
    match OrderType.ofByte? byte with
    | none => throw (.unknownTag .orderType byte.toUInt32)
    | some type => return leaf (readLeaf type data)
  | some .free =>
    if Bytes.isZero (data.drop 8) then return free (Bytes.u32At data 4)
    else throw (.reservedBytes .free)
  | some .lastFree =>
    if Bytes.isZero (data.drop 8) then return lastFree (Bytes.u32At data 4)
    else throw (.reservedBytes .lastFree)

def branchBytes (b : Branch) : Bytes :=
  Bytes.ofU32 b.prefixLength ++ Bytes.ofWord128 b.key ++ Bytes.ofU32 b.left ++
    Bytes.ofU32 b.right ++ Bytes.ofU64 b.leftExpiry ++ Bytes.ofU64 b.rightExpiry ++
    List.replicate 40 0

def leafBytes (l : Leaf) : Bytes :=
  Bytes.ofU8 l.ownerSlot ++ Bytes.ofU8 l.type.toByte ++ Bytes.ofU8 l.version ++
    Bytes.ofU8 l.timeInForce ++ l.key.toBytes ++ l.owner.toBytes ++ Bytes.ofI64 l.quantity ++
    Bytes.ofU64 l.clientOrderId ++ Bytes.ofI64 l.bestInitial ++ Bytes.ofU64 l.timestamp.seconds

def encode (node : Node) : Bytes :=
  Bytes.ofU32 node.tag.toWord ++
    match node with
    | .uninitialized => List.replicate 84 0
    | .inner b => branchBytes b
    | .leaf l => leafBytes l
    | .free next | .lastFree next => Bytes.ofU32 next ++ List.replicate 80 0

@[simp] theorem length_encode (node : Node) : node.encode.length = size := by
  cases node <;>
    simp [encode, branchBytes, leafBytes, size, Bytes.ofU8, Bytes.ofU32, Bytes.ofU64, Bytes.ofI64,
      Bytes.ofWord128, OrderKey.toBytes, Address.toBytes]

end Node
end PerpDex
