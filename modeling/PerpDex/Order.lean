import PerpDex.Bytes

/-! What an order is placed with: its side, its type, and the key that ranks it on the book. -/
namespace PerpDex

inductive Side where
  | bid
  | ask
deriving DecidableEq, Inhabited

namespace Side

def opposite : Side → Side
  | bid => ask
  | ask => bid

def toByte : Side → UInt8
  | bid => 0
  | ask => 1

def ofByte? (b : UInt8) : Option Side :=
  if b = 0 then some bid else if b = 1 then some ask else none

@[simp] theorem ofByte?_toByte (side : Side) : ofByte? side.toByte = some side := by
  cases side <;> rfl

theorem toByte_of_ofByte? {b : UInt8} {side : Side} (h : ofByte? b = some side) :
    side.toByte = b := by
  unfold ofByte? at h
  split at h
  · cases h
    simp_all [toByte]
  · split at h
    · cases h
      simp_all [toByte]
    · simp at h

theorem ofByte?_eq_some_iff (byte : UInt8) (side : Side) :
    ofByte? byte = some side ↔ side.toByte = byte :=
  ⟨toByte_of_ofByte?, fun same => same ▸ ofByte?_toByte side⟩

theorem toByte_le (side : Side) : side.toByte ≤ 1 := by cases side <;> decide

theorem exists_toByte {byte : UInt8} (low : byte ≤ 1) : ∃ side : Side, side.toByte = byte := by
  obtain rfl | rfl : byte = 0 ∨ byte = 1 := by grind
  · exact ⟨bid, rfl⟩
  · exact ⟨ask, rfl⟩

end Side

inductive OrderType where
  /-- Rests on the book for whatever does not match. -/
  | limit
  /-- Matches what it can and drops the rest. -/
  | immediateOrCancel
  /-- Never takes; refused if it would cross. -/
  | postOnly
  /-- Takes at any price. -/
  | market
  /-- Never takes; moved one tick behind the best opposite price if it would cross. -/
  | postOnlySlide
deriving DecidableEq, Inhabited

namespace OrderType

def toByte : OrderType → UInt8
  | limit => 0
  | immediateOrCancel => 1
  | postOnly => 2
  | market => 3
  | postOnlySlide => 4

def ofByte? (b : UInt8) : Option OrderType :=
  if b = 0 then some limit
  else if b = 1 then some immediateOrCancel
  else if b = 2 then some postOnly
  else if b = 3 then some market
  else if b = 4 then some postOnlySlide
  else none

@[simp] theorem ofByte?_toByte (type : OrderType) : ofByte? type.toByte = some type := by
  cases type <;> rfl

theorem toByte_of_ofByte? {b : UInt8} {type : OrderType} (h : ofByte? b = some type) :
    type.toByte = b := by
  unfold ofByte? at h
  repeat' split at h
  all_goals cases h
  all_goals simp_all [toByte]

theorem ofByte?_eq_some_iff (byte : UInt8) (type : OrderType) :
    ofByte? byte = some type ↔ type.toByte = byte :=
  ⟨toByte_of_ofByte?, fun same => same ▸ ofByte?_toByte type⟩

theorem toByte_le (type : OrderType) : type.toByte ≤ 4 := by cases type <;> decide

theorem exists_toByte {byte : UInt8} (low : byte ≤ 4) :
    ∃ type : OrderType, type.toByte = byte := by
  obtain rfl | rfl | rfl | rfl | rfl :
    byte = 0 ∨ byte = 1 ∨ byte = 2 ∨ byte = 3 ∨ byte = 4 := by grind
  · exact ⟨limit, rfl⟩
  · exact ⟨immediateOrCancel, rfl⟩
  · exact ⟨postOnly, rfl⟩
  · exact ⟨market, rfl⟩
  · exact ⟨postOnlySlide, rfl⟩

end OrderType

/-- Price in lots with the sequence number that ranks the orders of one price. -/
structure OrderKey where
  price : UInt64
  sequence : UInt64
deriving DecidableEq, Inhabited

namespace OrderKey

/-- The price is the high half of the 128-bit key, the sequence number the low half. -/
def toWord (key : OrderKey) : BitVec 128 := key.price.toBitVec ++ key.sequence.toBitVec

def ofWord (word : BitVec 128) : OrderKey :=
  ⟨⟨word.extractLsb' 64 64⟩, ⟨word.extractLsb' 0 64⟩⟩

def toBytes (key : OrderKey) : Bytes := Bytes.ofU64 key.sequence ++ Bytes.ofU64 key.price

def readAt (data : Bytes) (offset : Nat) : OrderKey :=
  ⟨Bytes.u64At data (offset + 8), Bytes.u64At data offset⟩

end OrderKey
end PerpDex
