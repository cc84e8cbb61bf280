import PerpDex.Account.Group
import PerpDex.Proofs.Account.SlotRecords
import PerpDex.Proofs.Queue.Decoding

/-! The tables of a group. Each slot stores a key; with the zero key it is empty, and any other key
gives an entry that carries the key and the number of the slot. A search by key goes over the entries
alone, and still answers with the lowest slot that stores the key. -/
namespace PerpDex

variable {α : Type} {stored : Nat → Address} {key : α → Address} {index : α → Nat}
  {read : Nat → Option α} {k : Address} {n i : Nat}

/-- Slots that are empty with the zero key and else carry what they store. -/
structure Keyed (stored : Nat → Address) (key : α → Address) (index : α → Nat)
    (read : Nat → Option α) : Prop where
  absent : ∀ i, stored i = .zero → read i = none
  present : ∀ i, stored i ≠ .zero → ∃ a, read i = some a ∧ key a = stored i ∧ index a = i

/-- A table with all its slots, and a search for the slot of a key. -/
structure Directory (n : Nat) (stored : Nat → Address) (key : α → Address) (index : α → Nat)
    (entries : List (Option α)) (slotOf? : Address → Option Nat) : Prop where
  length_eq : entries.length = n
  absent_iff : ∀ i < n, entries[i]? = some none ↔ stored i = .zero
  slotOf?_eq_some_iff : ∀ k i, slotOf? k = some i ↔
    k ≠ .zero ∧ IsLeast {j | j < n ∧ stored j = k} i
  slotOf?_eq_none_iff : ∀ k, slotOf? k = none ↔ k = .zero ∨ ∀ i < n, stored i ≠ k
  found : ∀ k i, slotOf? k = some i → ∃ a, entries[i]? = some (some a) ∧ key a = k ∧ index a = i

theorem filterMap_id_map (read : Nat → Option α) (n : Nat) :
    ((List.range n).map read).filterMap id = records read n := by
  rw [List.filterMap_map, records]
  rfl

theorem keyed_of_map (reads : ∀ i, ∃ make : Address → α,
    read i = (stored i).present?.map make ∧ ∀ k, key (make k) = k ∧ index (make k) = i) :
    Keyed stored key index read where
  absent i zero := by
    obtain ⟨make, read, -⟩ := reads i
    simp [read, Address.present?, zero]
  present i nonzero := by
    obtain ⟨make, read, made⟩ := reads i
    exact ⟨make (stored i), by simp [read, Address.present?, nonzero], made _⟩

namespace Keyed

variable (keyed : Keyed stored key index read)

include keyed

theorem of_read {a : α} (here : read i = some a) :
    stored i ≠ .zero ∧ key a = stored i ∧ index a = i := by
  by_cases zero : stored i = .zero
  · rw [keyed.absent i zero] at here
    cases here
  · obtain ⟨b, atI, same, number⟩ := keyed.present i zero
    obtain rfl := Option.some.inj (here.symm.trans atI)
    exact ⟨zero, same, number⟩

theorem numbered : Numbered index read := fun _ _ here => (keyed.of_read here).2.2

theorem read_eq_none_iff : read i = none ↔ stored i = .zero := by
  constructor
  · intro none
    by_contra nonzero
    obtain ⟨a, here, -⟩ := keyed.present i nonzero
    rw [none] at here
    cases here
  · exact keyed.absent i

/-- The zero key is carried by no entry. -/
theorem exists_key_iff : (∃ a, read i = some a ∧ key a = k) ↔ k ≠ .zero ∧ stored i = k := by
  constructor
  · rintro ⟨a, here, rfl⟩
    obtain ⟨nonzero, same, -⟩ := keyed.of_read here
    rw [same]
    exact ⟨nonzero, rfl⟩
  · rintro ⟨nonzero, rfl⟩
    obtain ⟨a, here, same, -⟩ := keyed.present i nonzero
    exact ⟨a, here, same⟩

theorem find?_eq_some_iff {a : α} :
    (records read n).find? (key · = k) = some a ↔
      read (index a) = some a ∧ k ≠ .zero ∧ IsLeast {i | i < n ∧ stored i = k} (index a) := by
  simp only [find?_records_eq_some_iff keyed.numbered, decide_eq_true_eq, keyed.exists_key_iff]
  refine and_congr_right fun _ => ?_
  -- Empty slots store the zero key, but no entry carries it.
  by_cases zero : k = .zero
  · simp [zero, IsLeast]
  · simp [zero]

theorem slot_eq_some_iff :
    ((records read n).find? (key · = k)).map index = some i ↔
      k ≠ .zero ∧ IsLeast {j | j < n ∧ stored j = k} i := by
  rw [Option.map_eq_some_iff]
  constructor
  · rintro ⟨a, found, rfl⟩
    exact (keyed.find?_eq_some_iff.mp found).2
  · rintro ⟨nonzero, lowest⟩
    obtain ⟨a, here, -⟩ := keyed.exists_key_iff.mpr ⟨nonzero, lowest.1.2⟩
    obtain rfl := keyed.numbered _ _ here
    exact ⟨a, keyed.find?_eq_some_iff.mpr ⟨here, nonzero, lowest⟩, rfl⟩

theorem slot_eq_none_iff :
    ((records read n).find? (key · = k)).map index = none ↔
      k = .zero ∨ ∀ i < n, stored i ≠ k := by
  have unkeyed (i : Nat) : (∀ a, read i = some a → decide (key a = k) = false) ↔
      ¬(k ≠ .zero ∧ stored i = k) := by
    simp [← keyed.exists_key_iff]
  rw [Option.map_eq_none_iff, find?_records_eq_none_iff]
  simp only [unkeyed]
  by_cases zero : k = .zero <;> simp [zero]

/-- A table that is read slot by slot, and a search among its entries. -/
theorem directory {entries : List (Option α)} {slotOf? : Address → Option Nat}
    (table : entries = (List.range n).map read)
    (search : ∀ k, slotOf? k = ((entries.filterMap id).find? (key · = k)).map index) :
    Directory n stored key index entries slotOf? := by
  subst table
  simp only [filterMap_id_map] at search
  have entry {i : Nat} (below : i < n) : ((List.range n).map read)[i]? = some (read i) := by
    rw [List.getElem?_map, List.getElem?_range below, Option.map_some]
  constructor
  case length_eq => rw [List.length_map, List.length_range]
  case absent_iff =>
    intro i below
    rw [entry below, Option.some.injEq, keyed.read_eq_none_iff]
  case slotOf?_eq_some_iff =>
    intro k i
    rw [search, keyed.slot_eq_some_iff]
  case slotOf?_eq_none_iff =>
    intro k
    rw [search, keyed.slot_eq_none_iff]
  case found =>
    intro k i found
    rw [search, keyed.slot_eq_some_iff] at found
    obtain ⟨nonzero, ⟨below, here⟩, -⟩ := found
    obtain ⟨a, atI, same⟩ := keyed.exists_key_iff.mpr ⟨nonzero, here⟩
    exact ⟨a, (entry below).trans (congrArg some atI), same, keyed.numbered _ _ atI⟩

end Keyed

namespace Group

variable {data : Bytes} {g : Group}

theorem keyed_readToken (data : Bytes) :
    Keyed (fun i => Address.readAt data (16 + 72 * i)) TokenInfo.mint TokenInfo.index
      (readToken data) :=
  keyed_of_map fun _ => ⟨_, rfl, fun _ => ⟨rfl, rfl⟩⟩

theorem keyed_readSpotMarket (data : Bytes) :
    Keyed (fun i => Address.readAt data (1168 + 112 * i)) SpotMarketInfo.market
      SpotMarketInfo.index (readSpotMarket data) :=
  keyed_of_map fun _ => ⟨_, rfl, fun _ => ⟨rfl, rfl⟩⟩

theorem keyed_readPerpMarket (data : Bytes) :
    Keyed (fun i => Address.readAt data (2848 + 160 * i)) PerpMarketInfo.market
      PerpMarketInfo.index (readPerpMarket data) :=
  keyed_of_map fun _ => ⟨_, rfl, fun _ => ⟨rfl, rfl⟩⟩

theorem tables_of_decode (decoded : decode data = .ok g) :
    g.tokens = (List.range 16).map (readToken data) ∧
      g.spotMarkets = (List.range 15).map (readSpotMarket data) ∧
      g.perpMarkets = (List.range 15).map (readPerpMarket data) := by
  simp only [decode, bind_eq_ok_iff] at decoded
  obtain ⟨-, -, -, -, returned⟩ := decoded
  obtain rfl := Except.ok.inj returned
  exact ⟨rfl, rfl, rfl⟩

/-- In a group that is decoded a search by key answers with the lowest slot that stores the key, and
never for the zero key. The entry in that slot carries the key and the number of the slot. The tables
have all their slots, of which those with the zero key are empty. -/
theorem decode_directories (decoded : decode data = .ok g) :
    Directory 16 (fun i => Address.readAt data (16 + 72 * i)) TokenInfo.mint TokenInfo.index
        g.tokens (fun k => (g.tokenByMint? k).map TokenInfo.index) ∧
      (∀ k token, g.tokenByMint? k = some token → g.tokens[token.index]? = some (some token)) ∧
      Directory 15 (fun i => Address.readAt data (2848 + 160 * i)) PerpMarketInfo.market
        PerpMarketInfo.index g.perpMarkets g.perpMarketIndex? ∧
      Directory 15 (fun i => Address.readAt data (1168 + 112 * i)) SpotMarketInfo.market
        SpotMarketInfo.index g.spotMarkets g.spotMarketIndex? := by
  obtain ⟨tokens, spotMarkets, perpMarkets⟩ := tables_of_decode decoded
  refine ⟨?_, fun k token found => ?_, ?_, ?_⟩
  · exact (keyed_readToken data).directory tokens fun _ => rfl
  · rw [tokenByMint?, tokens, filterMap_id_map] at found
    obtain ⟨here, -, ⟨below, -⟩, -⟩ := (keyed_readToken data).find?_eq_some_iff.mp found
    rw [tokens, List.getElem?_map, List.getElem?_range below, Option.map_some, here]
  · exact (keyed_readPerpMarket data).directory perpMarkets fun _ => rfl
  · exact (keyed_readSpotMarket data).directory spotMarkets fun _ => rfl

def doubled : Bytes :=
  AccountKind.group.toByte ::
    (((List.replicate 6031 0).set 87 7).set 231 7).set 3487 9

/-- The mint is found in the first of its slots. The zero key, which most slots store, is not found. -/
theorem directories_doubled :
    ∃ g, decode doubled = .ok g ∧ (g.tokenByMint? ⟨7⟩).map TokenInfo.index = some 1 ∧
      (g.tokenByMint? .zero).map TokenInfo.index = none ∧ g.tokens[0]? = some none ∧
      g.perpMarketIndex? ⟨9⟩ = some 4 ∧ g.spotMarketIndex? .zero = none := by
  have mints : ∀ i < 2, Address.readAt doubled (16 + 72 * i) = if i = 0 then .zero else ⟨7⟩ := by
    decide +kernel
  have perps : ∀ i < 5, Address.readAt doubled (2848 + 160 * i) =
      if i < 4 then .zero else ⟨9⟩ := by
    decide +kernel
  have whole : doubled.length = size := by
    simp only [doubled, List.length_cons, List.length_set, List.length_replicate, size]
  obtain ⟨g, decoded⟩ : ∃ g, decode doubled = .ok g := by
    simp only [decode, bind_eq_ok_iff, checkSize_eq_ok_iff, Header.check_eq_ok_iff]
    exact ⟨_, (), whole, (), rfl, rfl⟩
  obtain ⟨tokens, -, perpMarkets, spotMarkets⟩ := decode_directories decoded
  refine ⟨g, decoded, ?_, ?_, ?_, ?_, ?_⟩
  · refine (tokens.slotOf?_eq_some_iff _ _).mpr ⟨by decide, ⟨by omega, mints 1 (by omega)⟩, ?_⟩
    rintro i ⟨-, here⟩
    by_contra less
    obtain rfl : i = 0 := by omega
    exact absurd ((mints 0 (by omega)).symm.trans here) (by decide)
  · exact (tokens.slotOf?_eq_none_iff _).mpr (.inl rfl)
  · exact (tokens.absent_iff 0 (by omega)).mpr (mints 0 (by omega))
  · refine (perpMarkets.slotOf?_eq_some_iff _ _).mpr
      ⟨by decide, ⟨by omega, perps 4 (by omega)⟩, ?_⟩
    rintro i ⟨-, here⟩
    by_contra less
    have empty := perps i (by omega)
    rw [if_pos (by omega)] at empty
    exact absurd (empty.symm.trans here) (by decide)
  · exact (spotMarkets.slotOf?_eq_none_iff _).mpr (.inl rfl)

end Group
end PerpDex
