import PerpDex.Bytes
import PerpDex.Text.Base58

/-! Addresses: keys of 32 bytes. The key of zeros stands for "no key". -/
namespace PerpDex

/-- A key, held as the number whose little-endian bytes it is. -/
structure Address where
  word : BitVec 256
deriving DecidableEq, Inhabited

namespace Address

def zero : Address := ⟨0⟩

def ofBytes (data : Bytes) : Address := ⟨BitVec.ofNat 256 (Bytes.toNat data)⟩

def toBytes (key : Address) : Bytes := Bytes.ofNat 32 key.word.toNat

def readAt (data : Bytes) (offset : Nat) : Address := ofBytes (Bytes.slice data offset 32)

/-- Any key but the zero one. -/
def present? (key : Address) : Option Address := if key = zero then none else some key

def ofOption (key? : Option Address) : Address := key?.getD zero

def toText (key : Address) : String := Base58.encode key.toBytes

/-- Reads base 58 text of exactly 32 bytes. No such text is longer than 44 characters. -/
def ofText? (text : String) : Option Address := do
  if 44 < text.utf8ByteSize then none
  else
    let data ← Base58.decode? text
    if data.length = 32 then some (ofBytes data) else none

@[simp] theorem ofBytes_toBytes (key : Address) : ofBytes key.toBytes = key := by
  have := key.word.isLt
  simp only [ofBytes, toBytes, Bytes.toNat_ofNat]
  rw [Nat.mod_eq_of_lt (by omega), BitVec.ofNat_toNat, BitVec.setWidth_eq]

theorem toBytes_ofBytes {data : Bytes} (h : data.length = 32) : (ofBytes data).toBytes = data := by
  have bound := Bytes.toNat_lt data
  rw [h] at bound
  simp only [ofBytes, toBytes, BitVec.toNat_ofNat]
  rw [Nat.mod_eq_of_lt (by omega), ← h, Bytes.ofNat_toNat]

@[simp] theorem ofOption_present? (key : Address) : ofOption key.present? = key := by
  unfold present?
  split <;> simp_all [ofOption]

end Address
end PerpDex
