import PerpDex.Book.Node
import PerpDex.Proofs.Bytes.Fields

/-! Slots against their bytes. A slot is written as it was read, but for the bytes behind the fields
of a branch, which are not kept. Those of an unused slot are only read if they are zero, as which
they are written. -/
namespace PerpDex

namespace Bytes

variable {data : Bytes}

theorem isZero_replicate (count : Nat) : isZero (List.replicate count 0) = true := by
  simp [isZero]

theorem eq_replicate_of_isZero (zero : isZero data = true) :
    data = List.replicate data.length 0 := by
  rw [List.eq_replicate_iff]
  exact ⟨rfl, fun byte member => eq_of_beq (List.all_eq_true.mp zero byte member)⟩

end Bytes

namespace Node

open Bytes

variable {data : Bytes} {node : Node} {b : Branch} {l : Leaf}

theorem readBranch_branchBytes (word : UInt32) (b : Branch) :
    readBranch (ofU32 word ++ branchBytes b) = b := by
  let slot := ofU32 word ++ branchBytes b
  have prefixLength : slice slot 4 4 = ofU32 b.prefixLength := by
    simp [slot, branchBytes, slice_append_of_le, slice_append_of_length]
  have key : slice slot 8 16 = ofWord128 b.key := by
    simp [slot, branchBytes, slice_append_of_le, slice_append_of_length]
  have left : slice slot 24 4 = ofU32 b.left := by
    simp [slot, branchBytes, slice_append_of_le, slice_append_of_length]
  have right : slice slot 28 4 = ofU32 b.right := by
    simp [slot, branchBytes, slice_append_of_le, slice_append_of_length]
  have leftExpiry : slice slot 32 8 = ofU64 b.leftExpiry := by
    simp [slot, branchBytes, slice_append_of_le, slice_append_of_length]
  have rightExpiry : slice slot 40 8 = ofU64 b.rightExpiry := by
    simp [slot, branchBytes, slice_append_of_le, slice_append_of_length]
  rw [readBranch, u32At_of_slice prefixLength, word128At_of_slice key, u32At_of_slice left,
    u32At_of_slice right, u64At_of_slice leftExpiry, u64At_of_slice rightExpiry]

theorem readLeaf_leafBytes (word : UInt32) (l : Leaf) :
    readLeaf l.type (ofU32 word ++ leafBytes l) = l := by
  let slot := ofU32 word ++ leafBytes l
  have ownerSlot : slice slot 4 1 = ofU8 l.ownerSlot := by
    simp [slot, leafBytes, slice_append_of_le, slice_append_of_length]
  have version : slice slot 6 1 = ofU8 l.version := by
    simp [slot, leafBytes, slice_append_of_le, slice_append_of_length]
  have timeInForce : slice slot 7 1 = ofU8 l.timeInForce := by
    simp [slot, leafBytes, slice_append_of_le, slice_append_of_length]
  have key : slice slot 8 16 = l.key.toBytes := by
    simp [slot, leafBytes, slice_append_of_le, slice_append_of_length]
  have owner : slice slot 24 32 = l.owner.toBytes := by
    simp [slot, leafBytes, slice_append_of_le, slice_append_of_length]
  have quantity : slice slot 56 8 = ofI64 l.quantity := by
    simp [slot, leafBytes, slice_append_of_le, slice_append_of_length]
  have clientOrderId : slice slot 64 8 = ofU64 l.clientOrderId := by
    simp [slot, leafBytes, slice_append_of_le, slice_append_of_length]
  have bestInitial : slice slot 72 8 = ofI64 l.bestInitial := by
    simp [slot, leafBytes, slice_append_of_le, slice_append_of_length]
  have timestamp : slice slot 80 8 = ofU64 l.timestamp.seconds := by
    simp [slot, leafBytes, slice_append_of_le, slice_eq_self]
  rw [readLeaf, u8At_of_slice ownerSlot, u8At_of_slice version, u8At_of_slice timeInForce,
    OrderKey.readAt_of_slice key, Address.readAt_of_slice owner, i64At_of_slice quantity,
    u64At_of_slice clientOrderId, i64At_of_slice bestInitial, u64At_of_slice timestamp]

/-- The byte of a leaf that tells the type of the order. -/
theorem u8At_leafBytes (word : UInt32) (l : Leaf) :
    u8At (ofU32 word ++ leafBytes l) 5 = l.type.toByte :=
  u8At_of_slice (by simp [leafBytes, slice_append_of_le, slice_append_of_length])

theorem u32At_encode (node : Node) : u32At node.encode 0 = node.tag.toWord :=
  u32At_of_slice (slice_append_of_length (length_ofU32 _))

def Behind (data : Bytes) : Node → Prop
  | uninitialized => isZero (data.drop 4)
  | inner b => readBranch data = b
  | leaf l => l.type.toByte = u8At data 5 ∧ readLeaf l.type data = l
  | free next | lastFree next => isZero (data.drop 8) ∧ u32At data 4 = next

/-- What is looked at: the length, the tag, the bytes behind the tag. -/
theorem behind_of_decode (decoded : decode data = .ok node) :
    data.length = size ∧ u32At data 0 = node.tag.toWord ∧ Behind data node := by
  unfold decode checkSize at decoded
  split at decoded
  case isFalse => cases decoded
  rename_i whole
  refine ⟨whole, ?_⟩
  simp only [bind, Except.bind] at decoded
  cases known : NodeTag.ofWord? (u32At data 0) with
  -- an unknown tag is refused before anything behind it is looked at
  | none =>
    rw [known] at decoded
    cases decoded
  | some tag =>
    rw [← NodeTag.toWord_of_ofWord? known]
    rw [known] at decoded
    cases tag with
    | uninitialized =>
      dsimp only at decoded
      split at decoded
      · cases decoded
        exact ⟨rfl, ‹_›⟩
      · cases decoded
    | inner =>
      cases decoded
      exact ⟨rfl, rfl⟩
    | leaf =>
      dsimp only at decoded
      split at decoded
      · cases decoded
      · cases decoded
        exact ⟨rfl, OrderType.toByte_of_ofByte? ‹_›, rfl⟩
    | free =>
      dsimp only at decoded
      split at decoded
      · cases decoded
        exact ⟨rfl, ‹_›, rfl⟩
      · cases decoded
    | lastFree =>
      dsimp only at decoded
      split at decoded
      · cases decoded
        exact ⟨rfl, ‹_›, rfl⟩
      · cases decoded

theorem decode_of_behind (whole : data.length = size) (known : u32At data 0 = node.tag.toWord)
    (behind : Behind data node) : decode data = .ok node := by
  rw [decode, checkSize, if_pos whole]
  simp only [bind, Except.bind, known, NodeTag.ofWord?_toWord]
  cases node with
  | uninitialized => exact if_pos behind
  | inner b => exact congrArg _ (congrArg _ behind)
  | leaf l =>
    obtain ⟨type, read⟩ := behind
    simp only [tag, ← type, OrderType.ofByte?_toByte, read]
    rfl
  | free next => exact behind.2 ▸ if_pos behind.1
  | lastFree next => exact behind.2 ▸ if_pos behind.1

theorem behind_free (word : UInt32) (next : Handle) :
    isZero ((ofU32 word ++ (ofU32 next ++ List.replicate 80 0)).drop 8) ∧
      u32At (ofU32 word ++ (ofU32 next ++ List.replicate 80 0)) 4 = next := by
  constructor
  · rw [← List.append_assoc, List.drop_left' (by simp), isZero_replicate]
  · refine u32At_of_slice ?_
    rw [slice_append_of_le (by simp), length_ofU32, slice_append_of_length (length_ofU32 next)]

theorem decode_encode (node : Node) : decode node.encode = .ok node := by
  refine decode_of_behind (length_encode node) (u32At_encode node) ?_
  cases node with
  | uninitialized =>
    change isZero ((ofU32 _ ++ List.replicate 84 0).drop 4) = true
    rw [List.drop_left' (length_ofU32 _), isZero_replicate]
  | inner b => exact readBranch_branchBytes _ b
  | leaf l => exact ⟨(u8At_leafBytes _ l).symm, readLeaf_leafBytes _ l⟩
  | free next => exact behind_free _ next
  | lastFree next => exact behind_free _ next

theorem branchBytes_readBranch (whole : data.length = size) :
    ofU32 (u32At data 0) ++ branchBytes (readBranch data) =
      slice data 0 48 ++ List.replicate 40 0 := by
  rw [size] at whole
  simp only [branchBytes, readBranch, ← List.append_assoc]
  rw [ofU32_u32At (by omega), ofU32_u32At (by omega), ofWord128_word128At (by omega),
    ofU32_u32At (by omega), ofU32_u32At (by omega), ofU64_u64At (by omega),
    ofU64_u64At (by omega)]
  iterate 6 rw [slice_append_slice]

theorem leafBytes_readLeaf (whole : data.length = size) {type : OrderType}
    (known : type.toByte = u8At data 5) :
    ofU32 (u32At data 0) ++ leafBytes (readLeaf type data) = data := by
  rw [size] at whole
  simp only [leafBytes, readLeaf, known, ← List.append_assoc]
  rw [ofU32_u32At (by omega), ofU8_u8At (by omega), ofU8_u8At (by omega), ofU8_u8At (by omega),
    ofU8_u8At (by omega), OrderKey.toBytes_readAt (by omega), Address.toBytes_readAt (by omega),
    ofI64_i64At (by omega), ofU64_u64At (by omega), ofI64_i64At (by omega), ofU64_u64At (by omega)]
  iterate 10 rw [slice_append_slice]
  exact slice_eq_self whole

theorem freeBytes_of_isZero (whole : data.length = size) (zero : isZero (data.drop 8)) :
    ofU32 (u32At data 0) ++ (ofU32 (u32At data 4) ++ List.replicate 80 0) = data := by
  rw [size] at whole
  have zeros := eq_replicate_of_isZero zero
  rw [List.length_drop, whole] at zeros
  rw [ofU32_u32At (by omega), ofU32_u32At (by omega), ← List.append_assoc, slice_append_slice,
    ← zeros]
  exact List.take_append_drop 8 data

def Pads (place : Nat) : Node → Prop
  | inner _ => 48 ≤ place ∧ place < size
  | _ => False

theorem lt_of_pads {place : Nat} (pads : node.Pads place) : place < size := by
  cases node with
  | inner b => exact pads.2
  | _ => exact pads.elim

theorem encode_inner_of_decode (decoded : decode data = .ok (inner b)) :
    (inner b).encode = slice data 0 48 ++ List.replicate 40 0 := by
  obtain ⟨whole, tag, rfl⟩ := behind_of_decode decoded
  rw [← branchBytes_readBranch whole, tag]
  rfl

/-- Nothing is lost of a slot that is no branch. -/
theorem encode_of_decode (decoded : decode data = .ok node) (other : ∀ b, node ≠ inner b) :
    node.encode = data := by
  obtain ⟨whole, known, behind⟩ := behind_of_decode decoded
  cases node with
  | uninitialized =>
    have length : data.length = 88 := whole
    have zeros := eq_replicate_of_isZero behind
    rw [List.length_drop, length] at zeros
    change ofU32 _ ++ List.replicate 84 0 = data
    rw [← known, ofU32_u32At (by omega), ← zeros]
    exact List.take_append_drop 4 data
  | inner b => exact absurd rfl (other b)
  | leaf l =>
    obtain ⟨type, read⟩ := behind
    have bytes := leafBytes_readLeaf whole type
    rwa [read, known] at bytes
  | free next =>
    have bytes := freeBytes_of_isZero whole behind.1
    rwa [behind.2, known] at bytes
  | lastFree next =>
    have bytes := freeBytes_of_isZero whole behind.1
    rwa [behind.2, known] at bytes

theorem getElem?_encode_of_pads (decoded : decode data = .ok node) {place : Nat}
    (pads : node.Pads place) : node.encode[place]? = some 0 := by
  cases node with
  | inner b =>
    obtain ⟨behind, inside⟩ := pads
    have whole : data.length = 88 := (behind_of_decode decoded).1
    have fields : (slice data 0 48).length = 48 := length_slice_of_le (by omega)
    rw [size] at inside
    rw [encode_inner_of_decode decoded, List.getElem?_append_right (by omega), fields,
      List.getElem?_replicate_of_lt (by omega)]
  | _ => exact pads.elim

theorem getElem?_encode_of_not_pads (decoded : decode data = .ok node) {place : Nat}
    (kept : ¬node.Pads place) : node.encode[place]? = data[place]? := by
  by_cases branch : ∃ b, node = inner b
  · obtain ⟨b, rfl⟩ := branch
    have whole : data.length = 88 := (behind_of_decode decoded).1
    by_cases inside : place < 48
    · have fields : (slice data 0 48).length = 48 := length_slice_of_le (by omega)
      rw [encode_inner_of_decode decoded, List.getElem?_append_left (by omega),
        getElem?_slice data 0 inside, Nat.zero_add]
    · have outside : size ≤ place := Nat.not_lt.mp fun below => kept ⟨Nat.not_lt.mp inside, below⟩
      rw [List.getElem?_eq_none (Nat.le_trans (Nat.le_of_eq (length_encode _)) outside),
        List.getElem?_eq_none (Nat.le_trans (Nat.le_of_eq whole) outside)]
  · rw [encode_of_decode decoded fun b same => branch ⟨b, same⟩]

end Node
end PerpDex
