import PerpDex.AccountKind
import PerpDex.Address
import PerpDex.Order

/-! Fields of records. A field is read from its window alone: a window that holds what was written
reads as the value, and what is read from a window writes the same bytes. Records are written as
concatenations, whose windows are found by the lengths in front of them. -/
namespace PerpDex

namespace Bytes

variable {data first rest : Bytes} {offset width : Nat}

@[simp] theorem length_ofU8 (x : UInt8) : (ofU8 x).length = 1 := by simp [ofU8]

@[simp] theorem length_ofU32 (x : UInt32) : (ofU32 x).length = 4 := length_ofNat ..

@[simp] theorem length_ofU64 (x : UInt64) : (ofU64 x).length = 8 := length_ofNat ..

@[simp] theorem length_ofI64 (x : Int64) : (ofI64 x).length = 8 := length_ofNat ..

@[simp] theorem length_ofWord128 (x : BitVec 128) : (ofWord128 x).length = 16 := length_ofNat ..

@[simp] theorem length_ofFlag (x : Bool) : (ofFlag x).length = 1 := by simp [ofFlag]

theorem slice_append_of_le (le : first.length ≤ offset) :
    slice (first ++ rest) offset width = slice rest (offset - first.length) width := by
  rw [slice, slice, List.drop_append, List.drop_eq_nil_of_le le, List.nil_append]

theorem slice_append_of_length (whole : first.length = width) :
    slice (first ++ rest) 0 width = first := by
  rw [slice, List.drop_zero, ← whole, List.take_left]

theorem slice_eq_self (whole : data.length = width) : slice data 0 width = data := by
  rw [slice, List.drop_zero, ← whole, List.take_length]

theorem getElem?_slice {i : Nat} (data : Bytes) (offset : Nat) (inside : i < width) :
    (slice data offset width)[i]? = data[offset + i]? := by
  rw [slice, List.getElem?_take_of_lt inside, List.getElem?_drop]

theorem slice_drop (data : Bytes) (start offset width : Nat) :
    slice (data.drop start) offset width = slice data (start + offset) width := by
  rw [slice, slice, List.drop_drop]

theorem slice_slice {outer inner : Nat} (inside : inner + width ≤ outer) :
    slice (slice data offset outer) inner width = slice data (offset + inner) width := by
  rw [slice, slice, slice, List.drop_take, List.drop_drop, List.take_take]
  rw [Nat.min_eq_left (by omega)]

theorem length_slice_of_le (inside : offset + width ≤ data.length) :
    (slice data offset width).length = width := by
  rw [length_slice]
  omega

theorem natAt_of_slice {n : Nat} (window : slice data offset width = ofNat width n)
    (fits : n < 256 ^ width) : natAt data offset width = n := by
  rw [natAt, window, toNat_ofNat, Nat.mod_eq_of_lt fits]

theorem natAt_lt (data : Bytes) (offset width : Nat) : natAt data offset width < 256 ^ width := by
  refine Nat.lt_of_lt_of_le (toNat_lt _) (Nat.pow_le_pow_right (by decide) ?_)
  rw [length_slice]
  exact Nat.min_le_left ..

theorem ofNat_natAt (inside : offset + width ≤ data.length) :
    ofNat width (natAt data offset width) = slice data offset width := by
  have whole := ofNat_toNat (slice data offset width)
  rwa [length_slice_of_le inside] at whole

/-- Of two strings put end to end the second one has the high digits. -/
theorem toNat_append (first rest : Bytes) :
    toNat (first ++ rest) = toNat first + 256 ^ first.length * toNat rest := by
  induction first with
  | nil => simp [toNat]
  | cons b first ih =>
    simp only [List.cons_append, toNat, ih, List.length_cons]
    rw [Nat.mul_add, Nat.pow_succ', Nat.mul_assoc, Nat.add_assoc]

/-- A window is read as two windows that meet. -/
theorem natAt_add (low high : Nat) (inside : offset + low ≤ data.length) :
    natAt data offset (low + high) =
      natAt data offset low + 256 ^ low * natAt data (offset + low) high := by
  rw [natAt, ← slice_append_slice, toNat_append, length_slice_of_le inside, natAt, natAt]

theorem u8At_of_slice {x : UInt8} (window : slice data offset 1 = ofU8 x) :
    u8At data offset = x := by
  rw [u8At, natAt, window]
  exact UInt8.ofNat_toNat

theorem u8At_append_of_le (le : first.length ≤ offset) :
    u8At (first ++ rest) offset = u8At rest (offset - first.length) := by
  rw [u8At, u8At, natAt, natAt, slice_append_of_le le]

theorem u8At_ofU8_append (x : UInt8) (rest : Bytes) : u8At (ofU8 x ++ rest) 0 = x :=
  u8At_of_slice (slice_append_of_length (length_ofU8 x))

theorem ofU8_u8At (inside : offset + 1 ≤ data.length) :
    ofU8 (u8At data offset) = slice data offset 1 := by
  rw [← ofNat_natAt inside]
  rfl

theorem u32At_of_slice {x : UInt32} (window : slice data offset 4 = ofU32 x) :
    u32At data offset = x := by
  rw [u32At, natAt_of_slice window x.toNat_lt, UInt32.ofNat_toNat]

theorem ofU32_u32At (inside : offset + 4 ≤ data.length) :
    ofU32 (u32At data offset) = slice data offset 4 := by
  rw [ofU32, u32At, UInt32.toNat_ofNat', Nat.mod_eq_of_lt (b := 2 ^ 32) (natAt_lt data offset 4),
    ofNat_natAt inside]

theorem u64At_of_slice {x : UInt64} (window : slice data offset 8 = ofU64 x) :
    u64At data offset = x := by
  rw [u64At, natAt_of_slice window x.toNat_lt, UInt64.ofNat_toNat]

theorem toNat_u64At (data : Bytes) (offset : Nat) :
    (u64At data offset).toNat = natAt data offset 8 := by
  rw [u64At, UInt64.toNat_ofNat', Nat.mod_eq_of_lt (b := 2 ^ 64) (natAt_lt data offset 8)]

theorem ofU64_u64At (inside : offset + 8 ≤ data.length) :
    ofU64 (u64At data offset) = slice data offset 8 := by
  rw [ofU64, toNat_u64At, ofNat_natAt inside]

theorem i64At_of_slice {x : Int64} (window : slice data offset 8 = ofI64 x) :
    i64At data offset = x := by
  rw [i64At, u64At_of_slice window, Int64.toInt64_toUInt64]

theorem ofI64_i64At (inside : offset + 8 ≤ data.length) :
    ofI64 (i64At data offset) = slice data offset 8 := by
  rw [ofI64, i64At, UInt64.toUInt64_toInt64, ofU64_u64At inside]

theorem wordOf_natAt {n width : Nat} {x : BitVec n} (room : 2 ^ n ≤ 256 ^ width)
    (window : slice data offset width = ofNat width x.toNat) :
    BitVec.ofNat n (natAt data offset width) = x := by
  rw [natAt_of_slice window (Nat.lt_of_lt_of_le x.isLt room), BitVec.ofNat_toNat,
    BitVec.setWidth_eq]

theorem ofNat_wordOf {n width : Nat} (room : 256 ^ width ≤ 2 ^ n)
    (inside : offset + width ≤ data.length) :
    ofNat width (BitVec.ofNat n (natAt data offset width)).toNat = slice data offset width := by
  rw [BitVec.toNat_ofNat, Nat.mod_eq_of_lt (Nat.lt_of_lt_of_le (natAt_lt data offset width) room),
    ofNat_natAt inside]

theorem word128At_of_slice {x : BitVec 128} (window : slice data offset 16 = ofWord128 x) :
    word128At data offset = x :=
  wordOf_natAt (by decide) window

theorem ofWord128_word128At (inside : offset + 16 ≤ data.length) :
    ofWord128 (word128At data offset) = slice data offset 16 :=
  ofNat_wordOf (by decide) inside

/-- A number of 16 bytes has its high half behind the low one. -/
theorem toNat_word128At (inside : offset + 16 ≤ data.length) :
    (word128At data offset).toNat =
      (u64At data (offset + 8)).toNat * 2 ^ 64 + (u64At data offset).toNat := by
  have halves := natAt_add 8 8 (show offset + 8 ≤ data.length by omega)
  rw [word128At, BitVec.toNat_ofNat, Nat.mod_eq_of_lt (b := 2 ^ 128) (natAt_lt data offset 16),
    toNat_u64At, toNat_u64At, halves]
  omega

end Bytes

open Bytes

variable {data : Bytes} {offset : Nat}

@[simp] theorem Address.length_toBytes (key : Address) : key.toBytes.length = 32 := length_ofNat ..

theorem Address.readAt_of_slice {key : Address} (window : slice data offset 32 = key.toBytes) :
    readAt data offset = key := by
  rw [readAt, window, ofBytes_toBytes]

theorem Address.toBytes_readAt (inside : offset + 32 ≤ data.length) :
    (readAt data offset).toBytes = slice data offset 32 :=
  toBytes_ofBytes (length_slice_of_le inside)

@[simp] theorem OrderKey.length_toBytes (key : OrderKey) : key.toBytes.length = 16 := by
  simp [toBytes]

theorem OrderKey.readAt_of_slice {key : OrderKey} (window : slice data offset 16 = key.toBytes) :
    readAt data offset = key := by
  have low : slice data offset 8 = ofU64 key.sequence := by
    rw [← Nat.add_zero offset, ← slice_slice (show 0 + 8 ≤ 16 by decide), window, toBytes,
      slice_append_of_length (length_ofU64 _)]
  have high : slice data (offset + 8) 8 = ofU64 key.price := by
    rw [← slice_slice (show 8 + 8 ≤ 16 by decide), window, toBytes,
      slice_append_of_le (by simp), length_ofU64, slice_eq_self (length_ofU64 _)]
  rw [readAt, u64At_of_slice low, u64At_of_slice high]

theorem OrderKey.toBytes_readAt (inside : offset + 16 ≤ data.length) :
    (readAt data offset).toBytes = slice data offset 16 := by
  rw [toBytes, readAt, ofU64_u64At (by omega), ofU64_u64At (by omega), slice_append_slice]

@[simp] theorem Header.length_toBytes (header : Header) : header.toBytes.length = 8 := by
  simp [toBytes]

theorem Header.read_of_slice {header : Header} (window : slice data 0 8 = header.toBytes) :
    read data = header := by
  have inner {start width : Nat} (le : start + width ≤ 8) :
      slice data start width = slice header.toBytes start width := by
    rw [← window, slice_slice le, Nat.zero_add]
  have kind : slice data 0 1 = ofU8 header.kindByte := by
    simp [inner, toBytes, slice_append_of_length]
  have version : slice data 1 1 = ofU8 header.version := by
    simp [inner, toBytes, slice_append_of_le, slice_append_of_length]
  have initialized : slice data 2 1 = ofU8 header.initialized.raw := by
    simp [inner, toBytes, slice_append_of_le, slice_append_of_length]
  have extra : slice data 3 5 = ofNat 5 header.extra.toNat := by
    simp [inner, toBytes, slice_append_of_le, slice_eq_self]
  rw [read, u8At_of_slice kind, u8At_of_slice version, u8At_of_slice initialized,
    wordOf_natAt (by decide) extra]

theorem Header.toBytes_read (inside : 8 ≤ data.length) : (read data).toBytes = slice data 0 8 := by
  rw [toBytes, read, ofU8_u8At (by omega), ofU8_u8At (by omega), ofU8_u8At (by omega),
    ofNat_wordOf (by decide) (by omega), slice_append_slice, slice_append_slice,
    slice_append_slice]

end PerpDex
