import PerpDex.Fixed.Signed
import PerpDex.Proofs.Bytes.Fields

/-! Reading depends on the window alone. Byte strings that agree on a stretch agree on every window in
it, and whatever is read from such a window is the same in both. -/
namespace PerpDex

namespace Bytes

variable {α : Type} {data data' : Bytes} {offset width start total stride count : Nat}

def Within (offset width place : Nat) : Prop := offset ≤ place ∧ place < offset + width

theorem slice_congr (same : ∀ place, Within offset width place → data'[place]? = data[place]?) :
    slice data' offset width = slice data offset width := by
  refine List.ext_getElem? fun i => ?_
  by_cases inside : i < width
  · rw [getElem?_slice _ _ inside, getElem?_slice _ _ inside]
    exact same _ ⟨Nat.le_add_right .., Nat.add_lt_add_left inside offset⟩
  · have short (bytes : Bytes) : (slice bytes offset width).length ≤ i := by
      rw [length_slice]
      omega
    rw [List.getElem?_eq_none (short data'), List.getElem?_eq_none (short data)]

/-- A stretch that agrees agrees on the windows in it. -/
theorem slice_congr_within (same : slice data' start total = slice data start total)
    (le : start ≤ offset) (inside : offset + width ≤ start + total) :
    slice data' offset width = slice data offset width := by
  have inner (bytes : Bytes) :
      slice bytes offset width = slice (slice bytes start total) (offset - start) width := by
    rw [slice_slice (by omega), Nat.add_sub_cancel' le]
  rw [inner data', inner data, same]

/-- Byte strings that agree on the last place of one of them, and behind it, are of one length. -/
theorem length_congr {n : Nat} (whole : data.length = n + 1)
    (same : ∀ place, n ≤ place → data'[place]? = data[place]?) : data'.length = n + 1 := by
  have last : data'[n]? = some data[n] :=
    (same n (Nat.le_refl n)).trans (List.getElem?_eq_getElem (by omega))
  have behind : data'[n + 1]? = none :=
    (same (n + 1) (Nat.le_succ n)).trans (List.getElem?_eq_none (Nat.le_of_eq whole))
  exact Nat.le_antisymm (List.getElem?_eq_none_iff.mp behind)
    (List.getElem?_eq_some_iff.mp last).1

/-- What is read at an offset is told by the `width` bytes from there on. -/
def Local (width : Nat) (read : Bytes → Nat → α) : Prop :=
  ∀ data data' offset, slice data' offset width = slice data offset width →
    read data' offset = read data offset

variable {read : Bytes → Nat → α}

theorem Local.within (reads : Local width read)
    (same : slice data' start total = slice data start total) (le : start ≤ offset)
    (inside : offset + width ≤ start + total) : read data' offset = read data offset :=
  reads _ _ _ (slice_congr_within same le inside)

/-- Entries of a table are read one by one. -/
theorem Local.table_congr (reads : Local width read) (fits : width ≤ stride)
    (same : slice data' start total = slice data start total) (le : start ≤ offset)
    (inside : offset + stride * count ≤ start + total) :
    table data' offset stride count read = table data offset stride count read := by
  refine List.map_congr_left fun i member => ?_
  have last : stride * i + stride ≤ stride * count := by
    rw [← Nat.mul_succ]
    exact Nat.mul_le_mul_left stride (List.mem_range.mp member)
  exact reads.within same (by omega) (by omega)

theorem local_u8At : Local 1 u8At := fun _ _ _ same => by rw [u8At, u8At, natAt, natAt, same]

theorem local_u64At : Local 8 u64At := fun _ _ _ same => by rw [u64At, u64At, natAt, natAt, same]

theorem local_i64At : Local 8 i64At := fun _ _ _ same => by
  rw [i64At, i64At, local_u64At _ _ _ same]

theorem local_word128At : Local 16 word128At := fun _ _ _ same => by
  rw [word128At, word128At, natAt, natAt, same]

theorem local_flagAt : Local 1 flagAt := fun _ _ _ same => by
  rw [flagAt, flagAt, local_u8At _ _ _ same]

theorem u64At_slice (data : Bytes) (start : Nat) (inside : offset + 8 ≤ total) :
    u64At (slice data start total) offset = u64At data (start + offset) := by
  rw [u64At, u64At, natAt, natAt, slice_slice inside]

theorem word128At_slice (data : Bytes) (start : Nat) (inside : offset + 16 ≤ total) :
    word128At (slice data start total) offset = word128At data (start + offset) := by
  rw [word128At, word128At, natAt, natAt, slice_slice inside]

end Bytes

open Bytes

theorem Address.local_readAt : Local 32 readAt := fun _ _ _ same => by rw [readAt, readAt, same]

theorem SignedFixed.local_readAt : Local 16 readAt := fun _ _ _ same => by
  rw [readAt, readAt, local_word128At _ _ _ same]

theorem Header.read_congr {data data' : Bytes} (same : slice data' 0 8 = slice data 0 8) :
    read data' = read data := by
  have byte {place : Nat} (inside : place + 1 ≤ 8) : u8At data' place = u8At data place :=
    local_u8At.within same (Nat.zero_le _) (by omega)
  have rest : slice data' 3 5 = slice data 3 5 := slice_congr_within same (by omega) (by omega)
  rw [read, read, byte (by omega), byte (by omega), byte (by omega), natAt, natAt, rest]

end PerpDex
