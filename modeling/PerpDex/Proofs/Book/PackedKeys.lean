import PerpDex.Proofs.Book.Extremes
import PerpDex.Proofs.Bytes.Fields

/-! The three forms of an order key: price and sequence number, one number of 128 bits, and the 16
bytes of a slot. Every form gives the two others back. The tree ranks orders by the numbers, and
that is by price and, at one price, by sequence number. -/
namespace PerpDex

open Bytes

namespace OrderKey

theorem ofWord_toWord (key : OrderKey) : ofWord key.toWord = key := by
  have high : key.toWord.extractLsb' 64 64 = key.price.toBitVec := BitVec.extractLsb'_append_eq_left
  have low : key.toWord.extractLsb' 0 64 = key.sequence.toBitVec :=
    BitVec.extractLsb'_append_eq_right
  rw [ofWord, high, low]

theorem toWord_ofWord (word : BitVec 128) : (ofWord word).toWord = word := by
  have halves : word.extractLsb' 64 64 ++ word.extractLsb' 0 64 = word.extractLsb' 0 128 :=
    BitVec.extractLsb'_append_extractLsb'_eq_extractLsb' rfl
  exact halves.trans BitVec.extractLsb'_eq_self

theorem readAt_toBytes (key : OrderKey) : readAt key.toBytes 0 = key :=
  readAt_of_slice (slice_eq_self (length_toBytes key))

/-- The bytes of a key, read as one number, are the number of the key: the price is the half that
counts more, and it is stored behind the other one. -/
theorem toWord_readAt {data : Bytes} {offset : Nat} (inside : offset + 16 ≤ data.length) :
    (readAt data offset).toWord = word128At data offset := by
  apply BitVec.eq_of_toNat_eq
  rw [toNat_toWord, toNat_word128At inside]
  rfl

theorem word128At_toBytes (key : OrderKey) : word128At key.toBytes 0 = key.toWord := by
  have read : (readAt key.toBytes 0).toWord = word128At key.toBytes 0 := toWord_readAt (by simp)
  rw [← read, readAt_toBytes]

theorem ofWord128_toWord (key : OrderKey) : ofWord128 key.toWord = key.toBytes := by
  rw [← word128At_toBytes, ofWord128_word128At (by simp), slice_eq_self (length_toBytes key)]

/-- Bytes and a number that stand for a key, each of the three written as and read from the two
others. -/
structure Packs (key : OrderKey) (data : Bytes) (word : BitVec 128) : Prop where
  length : data.length = 16
  price : u64At data 8 = key.price
  sequence : u64At data 0 = key.sequence
  number : word.toNat = key.price.toNat * 2 ^ 64 + key.sequence.toNat
  bytes_of_key : key.toBytes = data
  word_of_key : key.toWord = word
  key_of_word : ofWord word = key
  bytes_of_word : ofWord128 word = data
  word_of_bytes : word128At data 0 = word

theorem packs (key : OrderKey) : Packs key key.toBytes key.toWord where
  length := key.length_toBytes
  price := by simpa only [readAt, Nat.zero_add] using congrArg OrderKey.price key.readAt_toBytes
  sequence := by simpa only [readAt] using congrArg OrderKey.sequence key.readAt_toBytes
  number := key.toNat_toWord
  bytes_of_key := rfl
  word_of_key := rfl
  key_of_word := key.ofWord_toWord
  bytes_of_word := key.ofWord128_toWord
  word_of_bytes := key.word128At_toBytes

theorem packs_word (word : BitVec 128) : Packs (ofWord word) (ofWord128 word) word := by
  have forms := packs (ofWord word)
  rw [← forms.bytes_of_word, toWord_ofWord] at forms
  exact forms

/-- Any 16 bytes are the bytes of a key. -/
theorem packs_bytes {data : Bytes} (length : data.length = 16) :
    Packs (readAt data 0) data (word128At data 0) := by
  have inside : 0 + 16 ≤ data.length := by omega
  have forms := packs (readAt data 0)
  rw [toBytes_readAt inside, slice_eq_self length, toWord_readAt inside] at forms
  exact forms

end OrderKey

namespace BookSide

/-- The walk of a tree meets the orders in price-time order, and the walk downwards in the reverse
of it. -/
theorem Formed.walks_by_price {book : BookSide} (formed : book.Formed) :
    ∃ leaves, book.walk true = ⟨leaves, none⟩ ∧ book.walk false = ⟨leaves.reverse, none⟩ ∧
      leaves.Pairwise fun a b => a.key.Before b.key := by
  rcases formed with none | ⟨tree, holds⟩
  · have empty : book.isEmpty = true := by simp [isEmpty, none]
    exact ⟨[], walk_of_isEmpty empty true, walk_of_isEmpty empty false, .nil⟩
  · refine ⟨tree.leaves, holds.walk_eq true, holds.walk_eq false, ?_⟩
    exact holds.critbit.sorted.imp OrderKey.toWord_lt_iff.mp

end BookSide

namespace OrderKey

/-- No key loses anything as a number or as bytes, every number and every 16 bytes are those of a
key, and keys are ranked as their numbers are: by price first, then by sequence number. So a side
that holds a tree is walked in price-time order. -/
theorem packed_in_price_time_order :
    (∀ key : OrderKey, Packs key key.toBytes key.toWord) ∧
      (∀ word : BitVec 128, Packs (ofWord word) (ofWord128 word) word) ∧
      (∀ data : Bytes, data.length = 16 → Packs (readAt data 0) data (word128At data 0)) ∧
      (∀ a b : OrderKey, a.toWord < b.toWord ↔ a.Before b) ∧
      ∀ book : BookSide, book.Formed →
        ∃ leaves, book.walk true = ⟨leaves, none⟩ ∧ book.walk false = ⟨leaves.reverse, none⟩ ∧
          leaves.Pairwise fun a b => a.key.Before b.key := by
  refine ⟨packs, packs_word, fun data length => packs_bytes length, fun a b => toWord_lt_iff, ?_⟩
  intro book formed
  exact formed.walks_by_price

def lastBytes : Bytes := List.replicate 8 255 ++ [1, 0, 0, 0, 0, 0, 0, 0]

/-- The last key of a price comes before the first one of the next price. In a tree, too, the orders
of price 5 come before the order of price 9, whose sequence number is lower than theirs. -/
theorem packed_in_price_time_order_of_last :
    lastBytes.length = 16 ∧ Packs ⟨1, 0xffffffffffffffff⟩ lastBytes 0x1ffffffffffffffff#128 ∧
      toWord ⟨1, 0xffffffffffffffff⟩ < toWord ⟨2, 0⟩ ∧
      BookSide.scattered.Formed ∧
      ∃ leaves, BookSide.scattered.walk true = ⟨leaves, none⟩ ∧
        leaves.map Leaf.key = [⟨5, 1⟩, ⟨5, 2⟩, ⟨9, 0⟩] ∧
        leaves.Pairwise fun a b => a.key.Before b.key := by
  obtain ⟨-, -, ofBytes, ranks, walks⟩ := packed_in_price_time_order
  have formed : BookSide.scattered.Formed := .inr ⟨_, BookSide.scattered_holds⟩
  obtain ⟨leaves, up, -, sorted⟩ := walks BookSide.scattered formed
  refine ⟨rfl, ofBytes lastBytes rfl, ?_, formed, leaves, up, ?_, sorted⟩
  · exact (ranks _ _).mpr (before_iff.mpr (.inl (by decide)))
  · have met := up.symm.trans (BookSide.scattered_holds.walk_eq true)
    obtain ⟨rfl, -⟩ := Walk.mk.inj met
    rfl

end OrderKey
end PerpDex
