import PerpDex.Error
import PerpDex.Fixed.Signed
import PerpDex.Timestamp

/-! Banks: the interest of a token, kept in a root bank, and the vaults below it, each with the
deposits and borrows of a node bank. -/
namespace PerpDex

structure RootBank where
  header : Header
  optimalUtil : Decimal
  optimalRate : Decimal
  maxRate : Decimal
  nodeBanks : List Address
  /-- Native units for a unit of deposit. -/
  depositIndex : Decimal
  /-- Native units for a unit of borrow. -/
  borrowIndex : Decimal
  lastUpdated : Timestamp

namespace RootBank

def size : Nat := 424

def nodeBankSlots : Nat := 8

def decode (data : Bytes) : Except Error RootBank := do
  checkSize "RootBank" size data
  let header := Header.read data
  header.check .rootBank
  return {
    header
    optimalUtil := SignedFixed.readAt data 8
    optimalRate := SignedFixed.readAt data 24
    maxRate := SignedFixed.readAt data 40
    nodeBanks :=
      Bytes.table data 64 32 (min (Bytes.u64At data 56).toNat nodeBankSlots) Address.readAt
    depositIndex := SignedFixed.readAt data 320
    borrowIndex := SignedFixed.readAt data 336
    lastUpdated := ⟨Bytes.u64At data 352⟩ }

def product (x y : Decimal) : Except Fault Decimal :=
  match x.mul? y with
  | some z => .ok z
  | none => .error .overflow

def nativeDeposit (bank : RootBank) (deposit : Decimal) : Except Fault Decimal :=
  product deposit bank.depositIndex

def nativeBorrow (bank : RootBank) (borrow : Decimal) : Except Fault Decimal :=
  product borrow bank.borrowIndex

end RootBank

structure NodeBank where
  header : Header
  deposits : Decimal
  borrows : Decimal
  vault : Address

namespace NodeBank

def size : Nat := 72

def decode (data : Bytes) : Except Error NodeBank := do
  checkSize "NodeBank" size data
  let header := Header.read data
  header.check .nodeBank
  return {
    header
    deposits := SignedFixed.readAt data 8
    borrows := SignedFixed.readAt data 24
    vault := Address.readAt data 40 }

end NodeBank
end PerpDex
