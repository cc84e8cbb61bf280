import PerpDex.Proofs.Book.SideBytes

/-! Which bytes are slots, and which of them are the same slot. A slot is written in one form, the
canonical one. Bytes that are read as a slot differ from that form at most behind the fields of a
branch, so they are told apart by their canonical forms. -/
namespace PerpDex.Node

open Bytes

variable {data data' : Bytes} {node node' : Node}

def ZeroFrom (start : Nat) (data : Bytes) : Prop :=
  ∀ place byte, start ≤ place → data[place]? = some byte → byte = 0

theorem isZero_drop_iff (start : Nat) (data : Bytes) :
    isZero (data.drop start) = true ↔ ZeroFrom start data := by
  rw [isZero, List.all_eq_true]
  constructor
  · intro zero place byte behind at_place
    refine eq_of_beq (zero byte (List.mem_iff_getElem?.mpr ⟨place - start, ?_⟩))
    rw [List.getElem?_drop, Nat.add_sub_cancel' behind, at_place]
  · intro zero byte member
    obtain ⟨place, at_place⟩ := List.mem_iff_getElem?.mp member
    rw [List.getElem?_drop] at at_place
    rw [zero _ byte (Nat.le_add_right ..) at_place]
    rfl

/-- What the tag asks of the bytes behind it. -/
def Shaped (data : Bytes) : Prop :=
  match (u32At data 0).toNat with
  | 0 => ZeroFrom 4 data
  | 1 => True
  | 2 => u8At data 5 ≤ 4
  | 3 | 4 => ZeroFrom 8 data
  | _ => False

theorem shaped_of_decode (decoded : decode data = .ok node) : Shaped data := by
  obtain ⟨-, known, behind⟩ := behind_of_decode decoded
  unfold Shaped
  rw [known]
  cases node with
  | uninitialized => exact (isZero_drop_iff 4 data).mp behind
  | inner b => trivial
  | leaf l =>
    change u8At data 5 ≤ 4
    rw [← behind.1]
    exact l.type.toByte_le
  | free next => exact (isZero_drop_iff 8 data).mp behind.1
  | lastFree next => exact (isZero_drop_iff 8 data).mp behind.1

theorem exists_decode_of_shaped (whole : data.length = size) (shaped : Shaped data) :
    ∃ node, decode data = .ok node := by
  unfold Shaped at shaped
  split at shaped
  case h_1 tag =>
    exact ⟨uninitialized, decode_of_behind whole (UInt32.toNat_inj.mp tag)
      ((isZero_drop_iff 4 data).mpr shaped)⟩
  case h_2 tag =>
    exact ⟨inner (readBranch data), decode_of_behind whole (UInt32.toNat_inj.mp tag) rfl⟩
  case h_3 tag =>
    obtain ⟨type, known⟩ := OrderType.exists_toByte shaped
    exact ⟨leaf (readLeaf type data), decode_of_behind whole (UInt32.toNat_inj.mp tag)
      ⟨known, rfl⟩⟩
  case h_4 tag =>
    exact ⟨free (u32At data 4), decode_of_behind whole (UInt32.toNat_inj.mp tag)
      ⟨(isZero_drop_iff 8 data).mpr shaped, rfl⟩⟩
  case h_5 tag =>
    exact ⟨lastFree (u32At data 4), decode_of_behind whole (UInt32.toNat_inj.mp tag)
      ⟨(isZero_drop_iff 8 data).mpr shaped, rfl⟩⟩
  case h_6 => exact shaped.elim

theorem exists_decode_iff_shaped :
    (∃ node, decode data = .ok node) ↔ data.length = size ∧ Shaped data := by
  constructor
  · rintro ⟨node, decoded⟩
    exact ⟨(behind_of_decode decoded).1, shaped_of_decode decoded⟩
  · rintro ⟨whole, shaped⟩
    exact exists_decode_of_shaped whole shaped

theorem decode_of_unknown (whole : data.length = size) (unknown : 4 < u32At data 0) :
    decode data = .error (.unknownTag .node (u32At data 0)) := by
  rw [decode, checkSize, if_pos whole]
  simp only [bind, Except.bind, (NodeTag.ofWord?_eq_none_iff _).mpr unknown]
  rfl

theorem unknown_of_decode {tag : UInt32} (failed : decode data = .error (.unknownTag .node tag)) :
    data.length = size ∧ u32At data 0 = tag ∧ 4 < tag := by
  unfold decode at failed
  rcases bind_eq_error_iff.mp failed with sized | ⟨_, sized, failed⟩
  · cases (checkSize_eq_error_iff.mp sized).2
  · refine ⟨checkSize_eq_ok_iff.mp sized, ?_⟩
    dsimp only at failed
    cases known : NodeTag.ofWord? (u32At data 0) with
    | none =>
      rw [known] at failed
      cases failed
      exact ⟨rfl, (NodeTag.ofWord?_eq_none_iff _).mp known⟩
    | some known' =>
      -- behind a known tag other things can be wrong, but not the tag
      rw [known] at failed
      cases known' <;> dsimp only at failed
      case inner => cases failed
      all_goals split at failed <;> cases failed

def canonical (data : Bytes) : Bytes :=
  if u32At data 0 = 1 then data.take 48 ++ List.replicate 40 0 else data

theorem encode_eq_canonical (decoded : decode data = .ok node) : node.encode = canonical data := by
  obtain ⟨-, known, -⟩ := behind_of_decode decoded
  unfold canonical
  rw [known]
  cases node with
  | inner b => exact encode_inner_of_decode decoded
  | _ => exact encode_of_decode decoded nofun

theorem eq_of_encode_eq (same : node.encode = node'.encode) : node = node' := by
  have back := decode_encode node
  rw [same, decode_encode node'] at back
  exact (Except.ok.inj back).symm

/-- Bytes are a slot exactly if there are 88 of them and those behind the tag are as it asks; a tag
that is not known is reported whatever they are. Every slot is read back from the bytes it is
written to. What is read is written in canonical form, which clears the padding of a branch and no
more, so two byte strings are the same slot exactly if they differ at most in that padding. -/
theorem decode_up_to_padding :
    (∀ data, (∃ node, decode data = .ok node) ↔ data.length = 88 ∧ Shaped data) ∧
      (∀ data tag, decode data = .error (.unknownTag .node tag) ↔
        data.length = 88 ∧ u32At data 0 = tag ∧ 4 < tag) ∧
      (∀ node : Node, decode node.encode = .ok node) ∧
      (∀ data node, decode data = .ok node → node.encode = canonical data) ∧
      ∀ data data' node node', decode data = .ok node → decode data' = .ok node' →
        (node = node' ↔ canonical data = canonical data') := by
  refine ⟨fun _ => exists_decode_iff_shaped, fun data tag => ?_, decode_encode,
    fun _ _ => encode_eq_canonical, fun data data' node node' decoded decoded' => ?_⟩
  · constructor
    · exact unknown_of_decode
    · rintro ⟨whole, rfl, unknown⟩
      exact decode_of_unknown whole unknown
  · rw [← encode_eq_canonical decoded, ← encode_eq_canonical decoded']
    exact ⟨congrArg encode, eq_of_encode_eq⟩

/-- A branch with sevens and one with nines behind its fields. -/
theorem decode_paddings :
    BookSide.padded 7 ≠ BookSide.padded 9 ∧
      decode (BookSide.padded 7) = .ok (inner default) ∧
      decode (BookSide.padded 9) = .ok (inner default) ∧
      (inner default).encode = canonical (BookSide.padded 7) ∧
      canonical (BookSide.padded 7) = canonical (BookSide.padded 9) := by
  obtain ⟨-, -, -, written, same⟩ := decode_up_to_padding
  have nines : decode (BookSide.padded 9) = .ok (inner default) := rfl
  exact ⟨by decide, BookSide.decode_padded, nines, written _ _ BookSide.decode_padded,
    (same _ _ _ _ BookSide.decode_padded nines).mp rfl⟩

end PerpDex.Node
