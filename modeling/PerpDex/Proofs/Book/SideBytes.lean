import PerpDex.Book.Side
import PerpDex.Proofs.Book.NodeBytes
import PerpDex.Proofs.Bytes.Chunks

/-! Book sides against their bytes. The header and every slot are kept, but for the padding of the
branches. -/
namespace PerpDex

theorem Header.kind?_eq_some_iff (header : Header) (kind : AccountKind) :
    header.kind? = some kind ↔ header.kindByte = kind.toByte := by
  constructor
  · exact fun known => (AccountKind.toByte_of_ofByte? known).symm
  · intro known
    rw [Header.kind?, known, AccountKind.ofByte?_toByte]

namespace BookSide

open Bytes

variable {data : Bytes} {book : BookSide}

def slot (data : Bytes) (i : Nat) : Bytes := slice data (headerSize + Node.size * i) Node.size

def headerBytes (book : BookSide) : Bytes :=
  book.header.toBytes ++ ofU64 book.bumpIndex ++ ofU64 book.freeListLength ++
    ofU32 book.freeListHead ++ ofU32 book.root ++ ofU64 book.leafCount

theorem length_headerBytes (book : BookSide) : book.headerBytes.length = headerSize := by
  simp [headerBytes, headerSize]

theorem length_headerBytes_append (full : book.nodes.length = capacity) :
    (book.headerBytes ++ book.nodes.flatMap Node.encode).length = size := by
  rw [List.length_append, length_headerBytes, length_flatMap_of_length Node.length_encode, full,
    size, Nat.mul_comm]

theorem encode_eq (full : book.nodes.length = capacity) :
    book.encode = book.headerBytes ++ book.nodes.flatMap Node.encode := by
  have length := length_headerBytes_append full
  have taken : book.nodes.take capacity = book.nodes := by rw [← full, List.take_length]
  rw [headerBytes] at length ⊢
  rw [encode, taken, length, Nat.sub_self, List.replicate_zero, List.append_nil]

theorem length_encode (full : book.nodes.length = capacity) : book.encode.length = size := by
  rw [encode_eq full, length_headerBytes_append full]

theorem slot_headerBytes_append (book : BookSide) (rest : Bytes) (i : Nat) :
    slot (book.headerBytes ++ rest) i = slice rest (Node.size * i) Node.size := by
  have behind : book.headerBytes.length ≤ headerSize + Node.size * i := by
    rw [length_headerBytes]
    exact Nat.le_add_right ..
  rw [slot, slice_append_of_le behind, length_headerBytes, Nat.add_sub_cancel_left]

theorem slot_encode (full : book.nodes.length = capacity) {i : Nat} {node : Node}
    (at_i : book.nodes[i]? = some node) : slot book.encode i = node.encode := by
  rw [encode_eq full, slot_headerBytes_append, slice_flatMap Node.length_encode at_i]

def ofBytes (data : Bytes) (side : Side) (nodes : List Node) : BookSide where
  header := Header.read data
  side
  bumpIndex := u64At data 8
  freeListLength := u64At data 16
  freeListHead := u32At data 24
  root := u32At data 28
  leafCount := u64At data 32
  nodes

theorem ofBytes_headerBytes (book : BookSide) (rest : Bytes) :
    ofBytes (book.headerBytes ++ rest) book.side book.nodes = book := by
  let data := book.headerBytes ++ rest
  have header : slice data 0 8 = book.header.toBytes := by
    simp [data, headerBytes, slice_append_of_length]
  have bumpIndex : slice data 8 8 = ofU64 book.bumpIndex := by
    simp [data, headerBytes, slice_append_of_le, slice_append_of_length]
  have freeListLength : slice data 16 8 = ofU64 book.freeListLength := by
    simp [data, headerBytes, slice_append_of_le, slice_append_of_length]
  have freeListHead : slice data 24 4 = ofU32 book.freeListHead := by
    simp [data, headerBytes, slice_append_of_le, slice_append_of_length]
  have root : slice data 28 4 = ofU32 book.root := by
    simp [data, headerBytes, slice_append_of_le, slice_append_of_length]
  have leafCount : slice data 32 8 = ofU64 book.leafCount := by
    simp [data, headerBytes, slice_append_of_le, slice_append_of_length]
  rw [ofBytes, Header.read_of_slice header, u64At_of_slice bumpIndex,
    u64At_of_slice freeListLength, u32At_of_slice freeListHead, u32At_of_slice root,
    u64At_of_slice leafCount]

theorem headerBytes_ofBytes (inside : headerSize ≤ data.length) (side : Side) (nodes : List Node) :
    (ofBytes data side nodes).headerBytes = slice data 0 headerSize := by
  rw [headerSize] at inside
  rw [headerBytes, ofBytes, Header.toBytes_read (by omega), ofU64_u64At (by omega),
    ofU64_u64At (by omega), ofU32_u32At (by omega), ofU32_u32At (by omega), ofU64_u64At (by omega)]
  iterate 5 rw [slice_append_slice]
  rfl

theorem kind?_bind_sideOf?_eq_some_iff (header : Header) (side : Side) :
    header.kind?.bind sideOf? = some side ↔ header.kindByte = (kindOf side).toByte := by
  rw [← Header.kind?_eq_some_iff]
  cases header.kind? with
  | none => simp
  | some kind => cases kind <;> cases side <;> simp [sideOf?, kindOf]

theorem decode_of_kind {side : Side} (whole : data.length = size)
    (kind : u8At data 0 = (kindOf side).toByte) :
    decode data = ((chunks Node.size capacity (data.drop headerSize)).mapM Node.decode).map
      (ofBytes data side) := by
  have known := (kind?_bind_sideOf?_eq_some_iff (Header.read data) side).mpr kind
  rw [decode, checkSize, if_pos whole]
  simp only [bind, Except.bind, known]
  rfl

theorem kind_of_decode (decoded : decode data = .ok book) :
    data.length = size ∧ ∃ side, u8At data 0 = (kindOf side).toByte := by
  unfold decode checkSize at decoded
  split at decoded
  case isFalse => cases decoded
  rename_i whole
  simp only [bind, Except.bind] at decoded
  cases known : (Header.read data).kind?.bind sideOf? with
  | none =>
    rw [known] at decoded
    cases decoded
  | some side => exact ⟨whole, side, (kind?_bind_sideOf?_eq_some_iff _ side).mp known⟩

/-- What is looked at: the size, the kind, the slots. -/
theorem decode_eq_ok_iff (data : Bytes) (book : BookSide) :
    decode data = .ok book ↔
      data.length = size ∧ u8At data 0 = (kindOf book.side).toByte ∧
        ofBytes data book.side book.nodes = book ∧ book.nodes.length = capacity ∧
        ∀ i < capacity, ∃ node, book.nodes[i]? = some node ∧
          Node.decode (slot data i) = .ok node := by
  have slots (nodes : List Node) :
      (chunks Node.size capacity (data.drop headerSize)).mapM Node.decode = .ok nodes ↔
        nodes.length = capacity ∧ ∀ i < capacity, ∃ node, nodes[i]? = some node ∧
          Node.decode (slot data i) = .ok node := by
    simp only [mapM_chunks_eq_ok_iff, slice_drop, slot]
  constructor
  · intro decoded
    obtain ⟨whole, side, kind⟩ := kind_of_decode decoded
    rw [decode_of_kind whole kind] at decoded
    cases read : (chunks Node.size capacity (data.drop headerSize)).mapM Node.decode with
    | error e =>
      rw [read] at decoded
      cases decoded
    | ok nodes =>
      rw [read] at decoded
      obtain rfl := Except.ok.inj decoded
      exact ⟨whole, kind, rfl, (slots nodes).mp read⟩
  · rintro ⟨whole, kind, same, read⟩
    rw [decode_of_kind whole kind, (slots book.nodes).mpr read]
    exact congrArg _ same

theorem decode_encode (full : book.nodes.length = capacity)
    (kind : book.header.kind? = some (kindOf book.side)) : decode book.encode = .ok book := by
  have same : ofBytes book.encode book.side book.nodes = book := by
    rw [encode_eq full, ofBytes_headerBytes]
  refine (decode_eq_ok_iff _ _).mpr ⟨?_, ?_, same, full, fun i inside => ?_⟩
  · exact length_encode full
  · have header : Header.read book.encode = book.header := congrArg BookSide.header same
    change (Header.read book.encode).kindByte = _
    rw [header, (Header.kind?_eq_some_iff _ _).mp kind]
  · have inside : i < book.nodes.length := full ▸ inside
    have at_i := List.getElem?_eq_getElem inside
    refine ⟨_, at_i, ?_⟩
    rw [slot_encode full at_i, Node.decode_encode]

/-- The slots are read from the lowest on. -/
theorem decode_eq_error {side : Side} {i : Nat} {e : Error} (whole : data.length = size)
    (kind : u8At data 0 = (kindOf side).toByte) (inside : i < capacity)
    (failed : Node.decode (slot data i) = .error e)
    (before : ∀ j < i, ∃ node, Node.decode (slot data j) = .ok node) : decode data = .error e := by
  have bad : (chunks Node.size capacity (data.drop headerSize)).mapM Node.decode = .error e := by
    refine mapM_chunks_eq_error inside ?_ fun j less => ?_
    · rw [slice_drop]
      exact failed
    · rw [slice_drop]
      exact before j less
  rw [decode_of_kind whole kind, bad]
  rfl

def IsPadding (book : BookSide) (place : Nat) : Prop :=
  ∃ i node within, book.nodes[i]? = some node ∧ node.Pads within ∧
    place = headerSize + Node.size * i + within

/-- The book side holds the slots of the data. Written again it differs from the data in the padding
alone, which is zero then, and reads as the same book side. -/
structure Reencodes (data : Bytes) (book : BookSide) : Prop where
  slots : ∀ i < capacity, ∃ node, book.nodes[i]? = some node ∧ Node.decode (slot data i) = .ok node
  length_eq : book.encode.length = data.length
  cleared : ∀ place, book.IsPadding place → book.encode[place]? = some 0
  kept : ∀ place, ¬book.IsPadding place → book.encode[place]? = data[place]?
  decode_eq : decode book.encode = .ok book

theorem getElem?_slot (data : Bytes) (i : Nat) {within : Nat} (inside : within < Node.size) :
    (slot data i)[within]? = data[headerSize + Node.size * i + within]? :=
  getElem?_slice data _ inside

/-- Every place behind the header is in a slot. -/
theorem exists_slot_of_place {place : Nat} (behind : headerSize ≤ place) (inside : place < size) :
    ∃ i within, i < capacity ∧ within < Node.size ∧
      place = headerSize + Node.size * i + within := by
  simp only [size, headerSize, capacity, Node.size] at behind inside ⊢
  exact ⟨(place - 40) / 88, (place - 40) % 88, by omega, by omega, by omega⟩

theorem slice_header_encode (decoded : decode data = .ok book) :
    slice book.encode 0 headerSize = slice data 0 headerSize := by
  obtain ⟨whole, -, same, full, -⟩ := (decode_eq_ok_iff data book).mp decoded
  have inside : headerSize ≤ data.length := by
    rw [whole]
    decide
  rw [encode_eq full, slice_append_of_length (length_headerBytes book),
    ← headerBytes_ofBytes inside, same]

theorem getElem?_encode_of_isPadding (decoded : decode data = .ok book) {place : Nat}
    (padding : book.IsPadding place) : book.encode[place]? = some 0 := by
  obtain ⟨-, -, -, full, slots⟩ := (decode_eq_ok_iff data book).mp decoded
  obtain ⟨i, node, within, at_i, pads, rfl⟩ := padding
  have inside : i < capacity := full ▸ (List.getElem?_eq_some_iff.mp at_i).1
  obtain ⟨other, at_i', read⟩ := slots i inside
  obtain rfl : node = other := Option.some.inj (at_i.symm.trans at_i')
  rw [← getElem?_slot _ _ (Node.lt_of_pads pads), slot_encode full at_i,
    Node.getElem?_encode_of_pads read pads]

theorem getElem?_encode_of_not_isPadding (decoded : decode data = .ok book) {place : Nat}
    (kept : ¬book.IsPadding place) : book.encode[place]? = data[place]? := by
  obtain ⟨whole, -, -, full, slots⟩ := (decode_eq_ok_iff data book).mp decoded
  by_cases front : place < headerSize
  · have bytes := congrArg (·[place]?) (slice_header_encode decoded)
    simpa only [getElem?_slice _ _ front, Nat.zero_add] using bytes
  · by_cases behind : size ≤ place
    · have length := length_encode full
      rw [List.getElem?_eq_none (by omega), List.getElem?_eq_none (by omega)]
    · obtain ⟨i, within, inside, below, rfl⟩ :=
        exists_slot_of_place (Nat.not_lt.mp front) (Nat.not_le.mp behind)
      obtain ⟨node, at_i, read⟩ := slots i inside
      have unpadded : ¬node.Pads within := fun pads => kept ⟨i, node, within, at_i, pads, rfl⟩
      rw [← getElem?_slot _ _ below, ← getElem?_slot _ _ below, slot_encode full at_i,
        Node.getElem?_encode_of_not_pads read unpadded]

theorem reencodes_of_decode (decoded : decode data = .ok book) : Reencodes data book := by
  obtain ⟨whole, kind, same, full, slots⟩ := (decode_eq_ok_iff data book).mp decoded
  have named : book.header.kind? = some (kindOf book.side) := by
    rw [Header.kind?_eq_some_iff, ← kind, ← same]
    rfl
  exact {
    slots
    length_eq := (length_encode full).trans whole.symm
    cleared := fun _ padding => getElem?_encode_of_isPadding decoded padding
    kept := fun _ kept => getElem?_encode_of_not_isPadding decoded kept
    decode_eq := decode_encode full named }

theorem exists_kindOf_iff (byte : UInt8) :
    (∃ side, byte = (kindOf side).toByte) ↔
      byte = AccountKind.bids.toByte ∨ byte = AccountKind.asks.toByte := by
  constructor
  · rintro ⟨side, rfl⟩
    cases side
    · exact .inl rfl
    · exact .inr rfl
  · rintro (rfl | rfl)
    · exact ⟨.bid, rfl⟩
    · exact ⟨.ask, rfl⟩

/-- Size, kind and slots decide whether data are a book side. -/
theorem exists_decode_iff :
    (∃ book, decode data = .ok book) ↔
      data.length = size ∧ (∃ side, u8At data 0 = (kindOf side).toByte) ∧
        ∀ i < capacity, ∃ node, Node.decode (slot data i) = .ok node := by
  constructor
  · rintro ⟨book, decoded⟩
    obtain ⟨whole, kind, -, -, slots⟩ := (decode_eq_ok_iff data book).mp decoded
    refine ⟨whole, ⟨_, kind⟩, fun i inside => ?_⟩
    obtain ⟨node, -, read⟩ := slots i inside
    exact ⟨node, read⟩
  · rintro ⟨whole, ⟨side, kind⟩, slots⟩
    obtain ⟨nodes, read⟩ : ∃ nodes,
        (chunks Node.size capacity (data.drop headerSize)).mapM Node.decode = .ok nodes := by
      refine exists_mapM_chunks_iff.mpr fun i inside => ?_
      rw [slice_drop]
      exact slots i inside
    refine ⟨ofBytes data side nodes, ?_⟩
    rw [decode_of_kind whole kind, read]
    rfl

/-- Every book side of 1024 slots whose header names its side is read back from its account. Data
are refused unless they have the size, one of the two kinds and nothing but slots that can be read;
of the slots that cannot, the lowest is reported. What is accepted is kept when it is written again,
except for the padding of the branches. -/
theorem decode_encode_decode :
    (∀ book : BookSide, book.nodes.length = 1024 →
        book.header.kind? = some (kindOf book.side) → decode book.encode = .ok book) ∧
      (∀ data, (∃ book, decode data = .ok book) ↔
        data.length = 90152 ∧
          (u8At data 0 = AccountKind.bids.toByte ∨ u8At data 0 = AccountKind.asks.toByte) ∧
          ∀ i < 1024, ∃ node, Node.decode (slot data i) = .ok node) ∧
      (∀ data i e, data.length = 90152 →
        (u8At data 0 = AccountKind.bids.toByte ∨ u8At data 0 = AccountKind.asks.toByte) →
          i < 1024 → (∀ j < i, ∃ node, Node.decode (slot data j) = .ok node) →
            Node.decode (slot data i) = .error e → decode data = .error e) ∧
      ∀ data book, decode data = .ok book → Reencodes data book := by
  refine ⟨fun book full kind => decode_encode full kind, fun data => ?_, ?_, ?_⟩
  · rw [← exists_kindOf_iff]
    exact exists_decode_iff
  · intro data i e whole known inside before failed
    obtain ⟨side, kind⟩ := (exists_kindOf_iff _).mpr known
    exact decode_eq_error whole kind inside failed before
  · exact fun data book decoded => reencodes_of_decode decoded

def unused : BookSide where
  header := Header.new .bids 0 true
  side := .bid
  bumpIndex := 0
  freeListLength := 0
  freeListHead := 0
  root := 0
  leafCount := 0
  nodes := List.replicate 1024 .uninitialized

def padded (padding : UInt8) : Bytes :=
  ofU32 NodeTag.inner.toWord ++ List.replicate 44 0 ++ List.replicate 40 padding

def branched (padding filler : UInt8) : Bytes :=
  unused.headerBytes ++ (padded padding ++ List.replicate (88 * 1023) filler)

theorem length_padded (padding : UInt8) : (padded padding).length = 88 := by
  simp only [padded, List.length_append, length_ofU32, List.length_replicate]

theorem length_branched (padding filler : UInt8) : (branched padding filler).length = 90152 := by
  simp only [branched, List.length_append, length_headerBytes, headerSize, length_padded,
    List.length_replicate]

theorem slot_branched_zero (padding filler : UInt8) :
    slot (branched padding filler) 0 = padded padding := by
  rw [branched, slot_headerBytes_append]
  exact slice_append_of_length (length_padded padding)

theorem slot_branched_succ (padding filler : UInt8) {i : Nat} (inside : i < 1023) :
    slot (branched padding filler) (i + 1) = List.replicate 88 filler := by
  have behind : (padded padding).length ≤ Node.size * (i + 1) := by
    rw [length_padded, Node.size]
    omega
  rw [branched, slot_headerBytes_append, slice_append_of_le behind, length_padded, slice,
    List.drop_replicate, List.take_replicate, Node.size]
  congr 1
  omega

theorem decode_padded : Node.decode (padded 7) = .ok (.inner default) := rfl

theorem decode_branched :
    decode unused.encode = .ok unused ∧
      (∃ book, decode (branched 7 0) = .ok book ∧ (branched 7 0)[88]? = some 7 ∧
        book.encode[88]? = some 0 ∧ decode book.encode = .ok book) ∧
      decode (branched 7 9) = .error (.unknownTag .node 0x09090909) := by
  obtain ⟨roundTrip, accepted, refused, reencodes⟩ := decode_encode_decode
  have kind (filler : UInt8) : u8At (branched 7 filler) 0 = AccountKind.bids.toByte := rfl
  have first (filler : UInt8) :
      Node.decode (slot (branched 7 filler) 0) = .ok (.inner default) := by
    rw [slot_branched_zero, decode_padded]
  refine ⟨roundTrip unused List.length_replicate rfl, ?_, ?_⟩
  · have slots : ∀ i < 1024, ∃ node, Node.decode (slot (branched 7 0) i) = .ok node := by
      intro i inside
      cases i with
      | zero => exact ⟨_, first 0⟩
      | succ i =>
        rw [slot_branched_succ 7 0 (by omega)]
        exact ⟨.uninitialized, rfl⟩
    obtain ⟨book, decoded⟩ :=
      (accepted (branched 7 0)).mpr ⟨length_branched 7 0, .inl (kind 0), slots⟩
    have again := reencodes _ book decoded
    obtain ⟨node, at_0, read⟩ := again.slots 0 (by decide)
    obtain rfl : .inner default = node := by simpa [first] using read
    have padding : book.IsPadding 88 := ⟨0, _, 48, at_0, ⟨by decide, by decide⟩, rfl⟩
    have seven : (branched 7 0)[88]? = some 7 := by
      have window := getElem?_slot (branched 7 0) 0 (show 48 < Node.size by decide)
      rw [slot_branched_zero] at window
      exact window.symm
    exact ⟨book, decoded, seven, again.cleared 88 padding, again.decode_eq⟩
  · refine refused (branched 7 9) 1 _ (length_branched 7 9) (.inl (kind 9)) (by decide) ?_ ?_
    · intro j less
      obtain rfl : j = 0 := by omega
      exact ⟨_, first 9⟩
    · rw [slot_branched_succ 7 9 (by decide)]
      rfl

end BookSide
end PerpDex
