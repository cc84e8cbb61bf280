import Mathlib.Logic.ExistsUnique
import PerpDex.Instruction
import PerpDex.Proofs.Bytes.Fields

/-! Packing against unpacking. Each reader takes from the front of the bytes exactly what the writer
of its values puts there, so the readers of the parameters invert the parameters, and a payload is
accepted only if it is packed. Which bytes that are is told by their number and by a few of them. -/
namespace PerpDex

theorem Bytes.u8At_ofFlag_le (flag : Bool) : u8At (ofFlag flag) 0 ≤ 1 := by cases flag <;> decide

theorem Bytes.exists_ofFlag {data : Bytes} {offset : Nat} (inside : offset + 1 ≤ data.length)
    (low : u8At data offset ≤ 1) : ∃ flag, ofFlag flag = slice data offset 1 := by
  rw [← ofU8_u8At inside]
  obtain zero | one : u8At data offset = 0 ∨ u8At data offset = 1 := by grind
  · exact ⟨false, zero ▸ rfl⟩
  · exact ⟨true, one ▸ rfl⟩

namespace Instruction

open Bytes

variable {α β : Type} {data rest : Bytes} {i : Instruction} {n : UInt32}

namespace Reader

/-- The reader succeeds on what is written in front of any bytes, and on nothing else. -/
def Reads (reader : Reader α) (write : α → Bytes) : Prop :=
  ∀ data a rest, reader data = .ok (a, rest) ↔ data = write a ++ rest

theorem pure_eq_ok {a b : α} :
    (pure a : Reader α) data = .ok (b, rest) ↔ a = b ∧ data = rest := by
  change Except.ok (a, data) = .ok (b, rest) ↔ _
  rw [Except.ok.injEq, Prod.mk.injEq]

theorem bind_eq_ok {reader : Reader α} {next : α → Reader β} {b : β} :
    (reader >>= next) data = .ok (b, rest) ↔
      ∃ a middle, reader data = .ok (a, middle) ∧ next a middle = .ok (b, rest) := by
  change (reader data >>= fun p => next p.1 p.2) = _ ↔ _
  cases reader data with
  | error defect => simp [bind, Except.bind]
  | ok p =>
    obtain ⟨a, middle⟩ := p
    simp only [bind, Except.bind, Except.ok.injEq, Prod.mk.injEq]
    constructor
    · intro read
      exact ⟨a, middle, ⟨rfl, rfl⟩, read⟩
    · rintro ⟨_, _, ⟨rfl, rfl⟩, read⟩
      exact read

theorem throw_eq_ok {defect : ParameterDefect} {a : α} :
    (throw defect : Reader α) data = .ok (a, rest) ↔ False := by
  change Except.error defect = .ok (a, rest) ↔ _
  simp

theorem take_eq_ok {count : Nat} {window : Bytes} :
    take count data = .ok (window, rest) ↔ data = window ++ rest ∧ window.length = count := by
  unfold take
  split
  · rename_i short
    refine iff_of_false (by simp) ?_
    rintro ⟨rfl, rfl⟩
    rw [List.length_append] at short
    omega
  · rename_i long
    rw [Except.ok.injEq, Prod.mk.injEq]
    constructor
    · rintro ⟨rfl, rfl⟩
      exact ⟨(List.take_append_drop count data).symm, List.length_take_of_le (by omega)⟩
    · rintro ⟨rfl, rfl⟩
      exact ⟨List.take_left, List.drop_left⟩

/-- A window of fixed width is read by the value in it. -/
theorem reads_window {width : Nat} {readAt : Bytes → Nat → α} {write : α → Bytes}
    (length : ∀ a, (write a).length = width) (back : ∀ a, readAt (write a) 0 = a)
    (forth : ∀ window, window.length = width → write (readAt window 0) = window) :
    Reads (do return readAt (← take width) 0) write := by
  intro data a rest
  simp only [bind_eq_ok, take_eq_ok, pure_eq_ok]
  constructor
  · rintro ⟨window, middle, ⟨rfl, whole⟩, rfl, rfl⟩
    rw [forth window whole]
  · rintro rfl
    exact ⟨write a, rest, ⟨rfl, length a⟩, back a, rfl⟩

theorem reads_u8 : Reads u8 ofU8 := by
  refine reads_window length_ofU8 (fun a => ?_) fun window whole => ?_
  · exact u8At_of_slice (slice_eq_self (length_ofU8 a))
  · rw [ofU8_u8At (by omega), slice_eq_self whole]

theorem reads_u64 : Reads u64 ofU64 := by
  refine reads_window length_ofU64 (fun a => ?_) fun window whole => ?_
  · exact u64At_of_slice (slice_eq_self (length_ofU64 a))
  · rw [ofU64_u64At (by omega), slice_eq_self whole]

theorem reads_i64 : Reads i64 ofI64 := by
  refine reads_window length_ofI64 (fun a => ?_) fun window whole => ?_
  · exact i64At_of_slice (slice_eq_self (length_ofI64 a))
  · rw [ofI64_i64At (by omega), slice_eq_self whole]

theorem reads_word128 : Reads word128 ofWord128 := by
  refine reads_window length_ofWord128 (fun a => ?_) fun window whole => ?_
  · exact word128At_of_slice (slice_eq_self (length_ofWord128 a))
  · rw [ofWord128_word128At (by omega), slice_eq_self whole]

/-- A byte that is decided on without reading further is read as the value it stands for. -/
theorem reads_byte {decideOn : UInt8 → Reader α} {toByte : α → UInt8}
    (decides : ∀ byte data a rest,
      decideOn byte data = .ok (a, rest) ↔ toByte a = byte ∧ data = rest) :
    Reads (u8 >>= decideOn) fun a => ofU8 (toByte a) := by
  intro data a rest
  simp only [bind_eq_ok, reads_u8 _ _ _, decides]
  constructor
  · rintro ⟨_, _, rfl, rfl, rfl⟩
    rfl
  · rintro rfl
    exact ⟨_, _, rfl, rfl, rfl⟩

theorem reads_variant {ofByte? : UInt8 → Option α} {toByte : α → UInt8}
    (inverse : ∀ byte a, ofByte? byte = some a ↔ toByte a = byte) :
    Reads (variant ofByte?) fun a => ofU8 (toByte a) := by
  refine reads_byte fun byte data a rest => ?_
  rw [← inverse byte a]
  cases ofByte? byte with
  | none => simpa using throw_eq_ok
  | some b => rw [Option.some.injEq]; exact pure_eq_ok

theorem reads_side : Reads Reader.side fun side => ofU8 side.toByte :=
  reads_variant Side.ofByte?_eq_some_iff

theorem reads_orderType : Reads orderType fun type => ofU8 type.toByte :=
  reads_variant OrderType.ofByte?_eq_some_iff

theorem reads_boolean : Reads boolean ofFlag := by
  change Reads boolean fun flag => ofU8 (if flag then 1 else 0)
  refine reads_byte fun byte data b rest => ?_
  by_cases zero : byte = 0
  · rw [if_pos zero, pure_eq_ok, zero]
    cases b <;> simp
  · by_cases one : byte = 1
    · rw [if_neg zero, if_pos one, pure_eq_ok, one]
      cases b <;> simp
    · rw [if_neg zero, if_neg one, throw_eq_ok]
      cases b <;> simp [Ne.symm zero, Ne.symm one]

/-- Reading what was written goes on with the value and the bytes behind it. -/
theorem Reads.bind {reader : Reader α} {write : α → Bytes} (reads : Reads reader write)
    (next : α → Reader β) (a : α) (rest : Bytes) :
    (reader >>= next) (write a ++ rest) = next a rest := by
  have read : reader (write a ++ rest) = .ok (a, rest) := (reads _ _ _).mpr rfl
  change (reader (write a ++ rest) >>= fun p => next p.1 p.2) = _
  rw [read]
  rfl

theorem whole_eq_ok {reader : Reader α} {a : α} :
    reader.whole data = .ok a ↔ reader data = .ok (a, []) := by
  unfold whole
  split
  · rename_i failed
    simp [failed]
  · rename_i b rest read
    cases rest <;> simp [read]

end Reader

open Reader

/-- Every instruction has a reader, which takes its parameters off the front of any bytes. -/
theorem reader_parameters (i : Instruction) (rest : Bytes) :
    ∃ reader, reader? i.discriminant = some reader ∧
      reader (i.parameters ++ rest) = .ok (i, rest) := by
  cases i <;> refine ⟨_, rfl, ?_⟩ <;>
    simp only [parameters, List.append_assoc, reads_u8.bind, reads_u64.bind, reads_i64.bind,
      reads_word128.bind, reads_boolean.bind, reads_side.bind, reads_orderType.bind] <;> rfl

/-- Whatever the reader of a discriminant makes of its bytes is an instruction with that
discriminant, whose parameters the bytes begin with. -/
theorem parameters_of_reader {reader : Reader Instruction} (known : reader? n = some reader)
    (read : reader data = .ok (i, rest)) : n = i.discriminant ∧ data = i.parameters ++ rest := by
  unfold reader? at known
  -- each reader turns into the values it takes off, one by one
  split at known
  all_goals cases known
  all_goals
    rename_i number
    simp only [bind_eq_ok, pure_eq_ok, reads_u8 _ _ _, reads_u64 _ _ _, reads_i64 _ _ _,
      reads_word128 _ _ _, reads_boolean _ _ _, reads_side _ _ _, reads_orderType _ _ _] at read
  · obtain ⟨_, _, rfl, rfl, rfl⟩ := read
    exact ⟨UInt32.toNat_inj.mp number, rfl⟩
  · obtain ⟨_, _, rfl, _, _, rfl, rfl, rfl⟩ := read
    exact ⟨UInt32.toNat_inj.mp number, (List.append_assoc ..).symm⟩
  · obtain ⟨_, _, rfl, _, _, rfl, _, _, rfl, _, _, rfl, _, _, rfl, _, _, rfl, rfl, rfl⟩ := read
    exact ⟨UInt32.toNat_inj.mp number, by simp only [parameters, List.append_assoc]⟩
  · obtain ⟨_, _, rfl, _, _, rfl, rfl, rfl⟩ := read
    exact ⟨UInt32.toNat_inj.mp number, (List.append_assoc ..).symm⟩
  · obtain ⟨_, _, rfl, _, _, rfl, rfl, rfl⟩ := read
    exact ⟨UInt32.toNat_inj.mp number, (List.append_assoc ..).symm⟩
  · obtain ⟨_, _, rfl, rfl, rfl⟩ := read
    exact ⟨UInt32.toNat_inj.mp number, rfl⟩
  · obtain ⟨rfl, rfl⟩ := read
    exact ⟨UInt32.toNat_inj.mp number, rfl⟩
  · obtain ⟨_, _, rfl, rfl, rfl⟩ := read
    exact ⟨UInt32.toNat_inj.mp number, rfl⟩

theorem u32At_pack (i : Instruction) : u32At (pack i) 0 = i.discriminant :=
  u32At_of_slice (slice_append_of_length (length_ofU32 _))

theorem drop_pack (i : Instruction) : (pack i).drop 4 = i.parameters :=
  List.drop_left' (length_ofU32 _)

theorem unpack_pack (i : Instruction) : unpack (pack i) = .ok i := by
  obtain ⟨reader, known, read⟩ := reader_parameters i []
  have long : ¬(pack i).length < 4 := by simp [pack]
  have settled : ¬(i.discriminant = settleFunds.discriminant ∧ (pack i).length ≠ 4) := by
    cases i <;> simp [pack, parameters, discriminant]
  simp only [unpack, u32At_pack, drop_pack, known]
  rw [if_neg long, if_neg settled, whole_eq_ok, ← read, List.append_nil]

theorem pack_of_unpack (unpacked : unpack data = .ok i) : pack i = data := by
  simp only [unpack] at unpacked
  split at unpacked
  · cases unpacked
  · rename_i long
    split at unpacked
    · cases unpacked
    · rename_i reader known
      split at unpacked
      · cases unpacked
      · obtain ⟨discriminant, parameters⟩ :=
          parameters_of_reader known (whole_eq_ok.mp unpacked)
        rw [List.append_nil] at parameters
        rw [pack, ← discriminant, ← parameters, ofU32_u32At (by omega), slice, List.drop_zero,
          List.take_append_drop]

theorem unpack_eq_ok_iff : unpack data = .ok i ↔ pack i = data :=
  ⟨pack_of_unpack, fun packed => packed ▸ unpack_pack i⟩

/-- No packed instruction is continued by another. -/
theorem pack_prefix_free {i j : Instruction} (leads : pack i <+: pack j) : i = j := by
  obtain ⟨extra, longer⟩ := leads
  have four : slice (pack j) 0 4 = ofU32 i.discriminant := by
    rw [← longer, pack, List.append_assoc, slice_append_of_length (length_ofU32 _)]
  have discriminant : j.discriminant = i.discriminant := by
    rw [← u32At_pack j, u32At_of_slice four]
  have parameters : j.parameters ++ [] = i.parameters ++ extra := by
    rw [List.append_nil, ← drop_pack j, ← longer, pack, List.append_assoc,
      List.drop_left' (length_ofU32 _)]
  obtain ⟨reader, known, read⟩ := reader_parameters j []
  obtain ⟨other, known', read'⟩ := reader_parameters i extra
  rw [discriminant, known', Option.some.injEq] at known
  rw [parameters, ← known, read', Except.ok.injEq, Prod.mk.injEq] at read
  exact read.1

/-- How many bytes the packed instructions of one kind have, and which of them are bounded. -/
structure Form where
  length : Nat
  /-- Offsets with the greatest byte that may stand there. -/
  bounds : List (Nat × UInt8)

/-- Booleans and sides are at most 1, types of orders at most 4. -/
def form? (discriminant : UInt32) : Option Form :=
  match discriminant.toNat with
  | 2 => some ⟨12, []⟩
  | 3 => some ⟨13, [(12, 1)]⟩
  | 12 => some ⟨31, [(28, 1), (29, 4), (30, 1)]⟩
  | 13 => some ⟨13, [(12, 1)]⟩
  | 14 => some ⟨21, [(20, 1)]⟩
  | 15 => some ⟨12, []⟩
  | 19 => some ⟨4, []⟩
  | 39 => some ⟨5, []⟩
  | _ => none

/-- The bytes are as many as their discriminant wants, and the bounded ones within their bounds. -/
def WellFormed (data : Bytes) : Prop :=
  ∃ form, form? (u32At data 0) = some form ∧ data.length = form.length ∧
    ∀ bound ∈ form.bounds, u8At data bound.1 ≤ bound.2

theorem wellFormed_pack (i : Instruction) : WellFormed (pack i) := by
  rw [WellFormed, u32At_pack]
  cases i <;> refine ⟨_, rfl, by simp [pack, parameters], ?_⟩
  all_goals
    simp [pack, parameters, u8At_append_of_le, u8At_ofU8_append, u8At_ofFlag_le,
      Side.toByte_le, OrderType.toByte_le]

/-- A payload is packed if its first four bytes and the rest are. -/
theorem pack_of_slices (count : Nat) (length : data.length = 4 + count)
    (number : (u32At data 0).toNat = i.discriminant.toNat)
    (packed : i.parameters = slice data 4 count) : pack i = data := by
  rw [pack, packed, ← UInt32.toNat_inj.mp number, ofU32_u32At (by omega), slice_append_slice,
    slice_eq_self length]

theorem exists_pack_of_wellFormed (formed : WellFormed data) : ∃ i, pack i = data := by
  obtain ⟨form, known, length, bounds⟩ := formed
  unfold form? at known
  split at known
  all_goals cases known
  all_goals rename_i number
  -- the fields are read where they stand; only the bounded bytes can fail to stand for a value
  all_goals simp only [List.forall_mem_cons] at length bounds
  · exact ⟨deposit (u64At data 4), pack_of_slices 8 length number (ofU64_u64At (by omega))⟩
  · obtain ⟨allow, flag⟩ := exists_ofFlag (by omega) bounds.1
    refine ⟨withdraw (u64At data 4) allow, pack_of_slices 9 length number ?_⟩
    rw [parameters, ofU64_u64At (by omega), flag, slice_append_slice]
  · obtain ⟨side, sideByte⟩ := Side.exists_toByte bounds.1
    obtain ⟨type, typeByte⟩ := OrderType.exists_toByte bounds.2.1
    obtain ⟨reduce, flag⟩ := exists_ofFlag (by omega) bounds.2.2.1
    refine ⟨placePerpOrder (i64At data 4) (i64At data 12) (u64At data 20) side type reduce,
      pack_of_slices 27 length number ?_⟩
    rw [parameters, ofI64_i64At (by omega), ofI64_i64At (by omega), ofU64_u64At (by omega),
      sideByte, typeByte, ofU8_u8At (by omega), ofU8_u8At (by omega), flag, slice_append_slice,
      slice_append_slice, slice_append_slice, slice_append_slice, slice_append_slice]
  · obtain ⟨ok, flag⟩ := exists_ofFlag (by omega) bounds.1
    refine ⟨cancelPerpOrderByClientId (u64At data 4) ok, pack_of_slices 9 length number ?_⟩
    rw [parameters, ofU64_u64At (by omega), flag, slice_append_slice]
  · obtain ⟨ok, flag⟩ := exists_ofFlag (by omega) bounds.1
    refine ⟨cancelPerpOrder (word128At data 4) ok, pack_of_slices 17 length number ?_⟩
    rw [parameters, ofWord128_word128At (by omega), flag, slice_append_slice]
  · exact ⟨consumeEvents (u64At data 4), pack_of_slices 8 length number (ofU64_u64At (by omega))⟩
  · exact ⟨settleFunds, pack_of_slices 0 length number rfl⟩
  · exact ⟨cancelAllPerpOrders (u8At data 4), pack_of_slices 1 length number (ofU8_u8At (by omega))⟩

theorem wellFormed_iff : WellFormed data ↔ ∃ i, pack i = data :=
  ⟨exists_pack_of_wellFormed, fun ⟨i, packed⟩ => packed ▸ wellFormed_pack i⟩

/-- Unpacking is the inverse of packing on all bytes: it accepts the packed instructions and nothing
else, each from one payload only, and no payload can lose or gain bytes at its end and be accepted.
The accepted payloads are told by their discriminant, their number of bytes and the bounds of their
booleans, sides and types of orders. -/
theorem unpack_inverts_pack :
    (∀ data i, unpack data = .ok i ↔ pack i = data) ∧
    (∀ i, ∃! data, unpack data = .ok i) ∧
    (∀ i j, pack i <+: pack j ↔ i = j) ∧
    ∀ data, (∃ i, unpack data = .ok i) ↔ WellFormed data := by
  refine ⟨fun _ _ => unpack_eq_ok_iff, fun i => ?_, fun i j => ?_, fun data => ?_⟩
  · exact ⟨pack i, unpack_pack i, fun data unpacked => (pack_of_unpack unpacked).symm⟩
  · refine ⟨pack_prefix_free, ?_⟩
    rintro rfl
    exact List.prefix_rfl
  · simp only [unpack_eq_ok_iff, wellFormed_iff]

/-- A withdrawal with a flag of two. -/
example : unpack (ofU32 3 ++ ofU64 7 ++ [2]) = .error (.badParameters (.notBoolean 2)) := rfl

end Instruction
end PerpDex
