import PerpDex.Bytes

/-! The kinds of accounts and the header of eight bytes that names the kind. -/
namespace PerpDex

inductive AccountKind where
  | group
  | marginAccount
  | rootBank
  | nodeBank
  | perpMarket
  | bids
  | asks
  | cache
  | eventQueue
  | advancedOrders
  | referrerMemory
  | referrerIdRecord
deriving DecidableEq

namespace AccountKind

def all : List AccountKind :=
  [group, marginAccount, rootBank, nodeBank, perpMarket, bids, asks, cache, eventQueue,
    advancedOrders, referrerMemory, referrerIdRecord]

def name : AccountKind → String
  | group => "MangoGroup"
  | marginAccount => "MangoAccount"
  | rootBank => "RootBank"
  | nodeBank => "NodeBank"
  | perpMarket => "PerpMarket"
  | bids => "Bids"
  | asks => "Asks"
  | cache => "MangoCache"
  | eventQueue => "EventQueue"
  | advancedOrders => "AdvancedOrders"
  | referrerMemory => "ReferrerMemory"
  | referrerIdRecord => "ReferrerIdRecord"

def toByte : AccountKind → UInt8
  | group => 0
  | marginAccount => 1
  | rootBank => 2
  | nodeBank => 3
  | perpMarket => 4
  | bids => 5
  | asks => 6
  | cache => 7
  | eventQueue => 8
  | advancedOrders => 9
  | referrerMemory => 10
  | referrerIdRecord => 11

def ofByte? (b : UInt8) : Option AccountKind := all.find? fun kind => kind.toByte == b

@[simp] theorem ofByte?_toByte (kind : AccountKind) : ofByte? kind.toByte = some kind := by
  cases kind <;> rfl

theorem toByte_of_ofByte? {b : UInt8} {kind : AccountKind} (h : ofByte? b = some kind) :
    kind.toByte = b :=
  eq_of_beq (List.find?_some (p := fun kind : AccountKind => kind.toByte == b) h)

end AccountKind

/-- A stored flag. Any byte but zero sets it, and the byte is kept. -/
structure Flag where
  raw : UInt8
deriving DecidableEq, Inhabited

namespace Flag

def ofBool (b : Bool) : Flag := ⟨if b then 1 else 0⟩

def isSet (f : Flag) : Bool := f.raw != 0

@[simp] theorem isSet_ofBool (b : Bool) : (ofBool b).isSet = b := by cases b <;> rfl

end Flag

/-- The first eight bytes of an account. `kindByte` may name no kind. -/
structure Header where
  kindByte : UInt8
  version : UInt8
  initialized : Flag
  extra : BitVec 40
deriving DecidableEq, Inhabited

namespace Header

def new (kind : AccountKind) (version : UInt8) (initialized : Bool) : Header :=
  ⟨kind.toByte, version, Flag.ofBool initialized, 0⟩

def kind? (header : Header) : Option AccountKind := AccountKind.ofByte? header.kindByte

def read (data : Bytes) : Header where
  kindByte := Bytes.u8At data 0
  version := Bytes.u8At data 1
  initialized := ⟨Bytes.u8At data 2⟩
  extra := BitVec.ofNat 40 (Bytes.natAt data 3 5)

def toBytes (header : Header) : Bytes :=
  Bytes.ofU8 header.kindByte ++ Bytes.ofU8 header.version ++ Bytes.ofU8 header.initialized.raw ++
    Bytes.ofNat 5 header.extra.toNat

end Header
end PerpDex
