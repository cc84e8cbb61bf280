import PerpDex.Error
import PerpDex.Order

/-! Instructions to the exchange and their packed form: a discriminant of four bytes, then the
parameters in order, without gaps. Packing and unpacking are inverse to each other; an unpacked
payload is used up completely. -/
namespace PerpDex

inductive Instruction where
  | deposit (quantity : UInt64)
  | withdraw (quantity : UInt64) (allowBorrow : Bool)
  | placePerpOrder (price quantity : Int64) (clientOrderId : UInt64) (side : Side)
      (type : OrderType) (reduceOnly : Bool)
  | cancelPerpOrderByClientId (clientOrderId : UInt64) (invalidIdOk : Bool)
  | cancelPerpOrder (orderId : BitVec 128) (invalidIdOk : Bool)
  | consumeEvents (limit : UInt64)
  | settleFunds
  | cancelAllPerpOrders (limit : UInt8)
deriving DecidableEq

namespace Instruction

def discriminant : Instruction → UInt32
  | deposit .. => 2
  | withdraw .. => 3
  | placePerpOrder .. => 12
  | cancelPerpOrderByClientId .. => 13
  | cancelPerpOrder .. => 14
  | consumeEvents .. => 15
  | settleFunds => 19
  | cancelAllPerpOrders .. => 39

def parameters : Instruction → Bytes
  | deposit quantity => Bytes.ofU64 quantity
  | withdraw quantity allowBorrow => Bytes.ofU64 quantity ++ Bytes.ofFlag allowBorrow
  | placePerpOrder price quantity clientOrderId side type reduceOnly =>
    Bytes.ofI64 price ++ Bytes.ofI64 quantity ++ Bytes.ofU64 clientOrderId ++
      Bytes.ofU8 side.toByte ++ Bytes.ofU8 type.toByte ++ Bytes.ofFlag reduceOnly
  | cancelPerpOrderByClientId clientOrderId invalidIdOk =>
    Bytes.ofU64 clientOrderId ++ Bytes.ofFlag invalidIdOk
  | cancelPerpOrder orderId invalidIdOk => Bytes.ofWord128 orderId ++ Bytes.ofFlag invalidIdOk
  | consumeEvents limit => Bytes.ofU64 limit
  | settleFunds => []
  | cancelAllPerpOrders limit => Bytes.ofU8 limit

def pack (i : Instruction) : Bytes := Bytes.ofU32 i.discriminant ++ i.parameters

/-- Reads parameters one after the other; what is left of the bytes is the state. -/
abbrev Reader := StateT Bytes (Except ParameterDefect)

namespace Reader

def take (count : Nat) : Reader Bytes := fun data =>
  if data.length < count then .error .tooShort else .ok (data.take count, data.drop count)

def u8 : Reader UInt8 := do return Bytes.u8At (← take 1) 0

def u64 : Reader UInt64 := do return Bytes.u64At (← take 8) 0

def i64 : Reader Int64 := do return Bytes.i64At (← take 8) 0

def word128 : Reader (BitVec 128) := do return Bytes.word128At (← take 16) 0

def boolean : Reader Bool := do
  let b ← u8
  if b = 0 then return false
  else if b = 1 then return true
  else throw (.notBoolean b)

def variant (ofByte? : UInt8 → Option α) : Reader α := do
  let b ← u8
  match ofByte? b with
  | some a => return a
  | none => throw (.notVariant b)

def side : Reader Side := variant Side.ofByte?

def orderType : Reader OrderType := variant OrderType.ofByte?

/-- Runs a reader on parameters that it has to use up. -/
def whole (reader : Reader α) (data : Bytes) : Except Error α :=
  match reader data with
  | .error defect => .error (.badParameters defect)
  | .ok (a, rest) => if rest.isEmpty then .ok a else .error (.badParameters .leftOver)

end Reader

open Reader in
def reader? (discriminant : UInt32) : Option (Reader Instruction) :=
  match discriminant.toNat with
  | 2 => some do return deposit (← u64)
  | 3 => some do return withdraw (← u64) (← boolean)
  | 12 => some do
    return placePerpOrder (← i64) (← i64) (← u64) (← Reader.side) (← orderType) (← boolean)
  | 13 => some do return cancelPerpOrderByClientId (← u64) (← boolean)
  | 14 => some do return cancelPerpOrder (← word128) (← boolean)
  | 15 => some do return consumeEvents (← u64)
  | 19 => some (pure settleFunds)
  | 39 => some do return cancelAllPerpOrders (← u8)
  | _ => none

/-- Reads a packed instruction. An instruction without parameters reports what follows it as a
wrong size. -/
def unpack (data : Bytes) : Except Error Instruction :=
  if data.length < 4 then .error (.sizeMismatch "MangoInstruction" 4 data.length)
  else
    let discriminant := Bytes.u32At data 0
    match reader? discriminant with
    | none => .error (.unknownTag .instruction discriminant)
    | some reader =>
      if discriminant = settleFunds.discriminant ∧ data.length ≠ 4 then
        .error (.sizeMismatch "SettleFunds" 4 data.length)
      else reader.whole (data.drop 4)

end Instruction
end PerpDex
