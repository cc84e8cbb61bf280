import PerpDex.Power

/-! Byte strings and the little-endian integers stored in them. Writing and reading back is the
identity on integers that fit, and reading and writing back is the identity on every window. -/
namespace PerpDex

abbrev Bytes := List UInt8

namespace Bytes

/-- The `width` bytes from `offset` on, fewer where the string ends before. -/
def slice (data : Bytes) (offset width : Nat) : Bytes := (data.drop offset).take width

/-- The integer whose base-256 digits, lowest first, are the bytes. -/
def toNat : Bytes → Nat
  | [] => 0
  | b :: rest => b.toNat + 256 * toNat rest

/-- The lowest `width` base-256 digits of `n`, lowest first. -/
def ofNat : (width : Nat) → (n : Nat) → Bytes
  | 0, _ => []
  | width + 1, n => UInt8.ofNat n :: ofNat width (n / 256)

/-- The first `count` consecutive pieces of `size` bytes. -/
def chunks (size : Nat) : (count : Nat) → Bytes → List Bytes
  | 0, _ => []
  | count + 1, data => data.take size :: chunks size count (data.drop size)

def isZero (data : Bytes) : Bool := data.all (· == 0)

def natAt (data : Bytes) (offset width : Nat) : Nat := toNat (slice data offset width)

def u8At (data : Bytes) (offset : Nat) : UInt8 := UInt8.ofNat (natAt data offset 1)

def u32At (data : Bytes) (offset : Nat) : UInt32 := UInt32.ofNat (natAt data offset 4)

def u64At (data : Bytes) (offset : Nat) : UInt64 := UInt64.ofNat (natAt data offset 8)

def i64At (data : Bytes) (offset : Nat) : Int64 := (u64At data offset).toInt64

def word128At (data : Bytes) (offset : Nat) : BitVec 128 := BitVec.ofNat 128 (natAt data offset 16)

def flagAt (data : Bytes) (offset : Nat) : Bool := u8At data offset != 0

/-- `count` values read at equal distances, the first at `offset`. -/
def table (data : Bytes) (offset stride count : Nat) (read : Bytes → Nat → α) : List α :=
  (List.range count).map fun i => read data (offset + stride * i)

def ofU8 (x : UInt8) : Bytes := [x]

def ofU32 (x : UInt32) : Bytes := ofNat 4 x.toNat

def ofU64 (x : UInt64) : Bytes := ofNat 8 x.toNat

def ofI64 (x : Int64) : Bytes := ofU64 x.toUInt64

def ofWord128 (x : BitVec 128) : Bytes := ofNat 16 x.toNat

def ofFlag (x : Bool) : Bytes := [if x then 1 else 0]

@[simp] theorem length_ofNat (width n : Nat) : (ofNat width n).length = width := by
  induction width generalizing n with
  | zero => rfl
  | succ width ih => simp [ofNat, ih]

theorem toNat_lt (data : Bytes) : toNat data < 256 ^ data.length := by
  induction data with
  | nil => simp [toNat]
  | cons b rest ih =>
    have := b.toNat_lt
    simp only [toNat, List.length_cons, Nat.pow_succ]
    omega

/-- Reading what was written gives the integer back, as far as it fits the width. -/
@[simp] theorem toNat_ofNat (width n : Nat) : toNat (ofNat width n) = n % 256 ^ width := by
  induction width generalizing n with
  | zero => simp [ofNat, toNat, Nat.mod_one]
  | succ width ih =>
    have split : n % 256 ^ (width + 1) = n % 256 + 256 * (n / 256 % 256 ^ width) := by
      rw [Nat.pow_add_one, Nat.mul_comm, Nat.mod_mul]
    simp only [ofNat, toNat, ih, UInt8.toNat_ofNat', split]

/-- Writing what was read gives the bytes back. -/
@[simp] theorem ofNat_toNat (data : Bytes) : ofNat data.length (toNat data) = data := by
  induction data with
  | nil => rfl
  | cons b rest ih =>
    have := b.toNat_lt
    have low : UInt8.ofNat (b.toNat + 256 * toNat rest) = b := by
      apply UInt8.toNat_inj.mp
      simp only [UInt8.toNat_ofNat']
      omega
    have high : (b.toNat + 256 * toNat rest) / 256 = toNat rest := by omega
    simp [ofNat, toNat, low, high, ih]

theorem slice_append_slice (data : Bytes) (offset first second : Nat) :
    slice data offset first ++ slice data (offset + first) second =
      slice data offset (first + second) := by
  simp [slice, List.take_add]

theorem length_slice (data : Bytes) (offset width : Nat) :
    (slice data offset width).length = min width (data.length - offset) := by
  simp [slice]

end Bytes
end PerpDex
