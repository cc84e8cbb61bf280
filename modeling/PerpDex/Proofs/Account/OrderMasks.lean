import Mathlib.Algebra.Group.Nat.Defs
import PerpDex.Account.OpenOrders
import PerpDex.Proofs.Account.SlotRecords
import PerpDex.Proofs.Bytes.Windows
import PerpDex.Proofs.Queue.Decoding

/-! The orders of an open orders account against its masks. A slot has an order just when the mask of
free slots has no bit for it, and the bit that the mask of bids has for such a slot is the order's
side. What the tables and the mask of bids hold for free slots does not matter to the orders. -/
namespace PerpDex

open Bytes

theorem toNat_cpop_eq_countP {w : Nat} (x : BitVec w) :
    x.cpop.toNat = (List.range w).countP x.getLsbD := by
  have upTo (n : Nat) : x.cpopNatRec n 0 = (List.range n).countP x.getLsbD := by
    induction n with
    | zero => rfl
    | succ n ih =>
      rw [BitVec.cpopNatRec_succ, BitVec.cpopNatRec_add, ih, List.range_succ, List.countP_append]
      cases bit : x.getLsbD n <;> simp [bit]
  rw [BitVec.toNat_cpop, upTo]

namespace Framing

theorem windows_wrap {body : Bytes} {n : Nat} (whole : body.length = n) :
    slice (wrap body) 0 5 = head ∧ slice (wrap body) 5 n = body ∧
      slice (wrap body) (5 + n) 7 = tail := by
  have front : head.length = 5 := rfl
  refine ⟨?_, ?_, ?_⟩
  · rw [wrap, List.append_assoc, slice_append_of_length front]
  · rw [wrap, List.append_assoc, slice_append_of_le (Nat.le_of_eq front), front, Nat.sub_self,
      slice_append_of_length whole]
  · have behind : (head ++ body).length = 5 + n := by rw [List.length_append, front, whole]
    rw [wrap, slice_append_of_le (Nat.le_of_eq behind), behind, Nat.sub_self]
    exact slice_eq_self rfl

theorem eq_wrap_of_windows {data : Bytes} {n : Nat} (whole : data.length = 5 + n + 7)
    (front : slice data 0 5 = head) (back : slice data (5 + n) 7 = tail) :
    data = wrap (slice data 5 n) := by
  calc data = slice data 0 (5 + n + 7) := (slice_eq_self whole).symm
    _ = slice data 0 5 ++ slice data 5 n ++ slice data (5 + n) 7 := by
      rw [← slice_append_slice data 0 (5 + n) 7, ← slice_append_slice data 0 5 n]
      simp only [Nat.zero_add]
    _ = wrap (slice data 5 n) := by rw [front, back, wrap]

end Framing

theorem OrderKey.price_ofWord (word : BitVec 128) :
    (ofWord word).price.toNat = word.toNat / 2 ^ 64 := by
  have := word.isLt
  change (word.extractLsb' 64 64).toNat = _
  rw [BitVec.extractLsb'_toNat, Nat.shiftRight_eq_div_pow]
  omega

namespace OpenOrders

variable {data data' body : Bytes} {account : OpenOrders} {order : SpotOrder} {slot : Nat}

theorem decode_eq_ok_iff :
    decode data = .ok account ↔ data.length = 3228 ∧ slice data 0 5 = Framing.head ∧
      slice data 3221 7 = Framing.tail ∧ readBody (slice data 5 3216) = account := by
  simp only [decode, bind_eq_ok_iff, checkSize_eq_ok_iff, Framing.unwrap_eq_ok_iff]
  constructor
  · rintro ⟨-, whole, body, rfl, read⟩
    have length : body.length = 3216 := by
      rw [Framing.wrap, List.length_append, List.length_append] at whole
      exact Nat.add_left_cancel (Nat.add_right_cancel whole)
    obtain ⟨front, inner, back⟩ := Framing.windows_wrap length
    exact ⟨whole, front, back, inner.symm ▸ Except.ok.inj read⟩
  · rintro ⟨whole, front, back, rfl⟩
    exact ⟨(), whole, _, Framing.eq_wrap_of_windows whole front back, rfl⟩

/-- What the tables and the mask of bids hold for the slot of an order, and the order's price, which
is the high half of its id. -/
structure Holds (data : Bytes) (slot : Nat) (order : SpotOrder) : Prop where
  bid_iff : order.side = .bid ↔ (word128At data 125).getLsbD slot = true
  orderId_eq : ofWord128 order.orderId = slice data (141 + 16 * slot) 16
  clientId_eq : ofU64 order.clientId = slice data (2189 + 8 * slot) 8
  price_eq : order.price.toNat = order.orderId.toNat / 2 ^ 64

def orderIn? (body : Bytes) (slot : Nat) : Option SpotOrder :=
  if (word128At body 104).getLsbD slot then none else some (readOrder body slot)

theorem orders_readBody (body : Bytes) :
    (readBody body).orders = records (orderIn? body) orderSlots := by
  rw [readBody, records, ← List.filterMap_eq_map, List.filterMap_filter]
  refine List.filterMap_congr fun slot _ => ?_
  cases free : (word128At body 104).getLsbD slot <;> simp [orderIn?, free]

theorem orderIn?_eq_some_iff :
    orderIn? body slot = some order ↔
      (word128At body 104).getLsbD slot = false ∧ readOrder body slot = order := by
  rw [orderIn?]
  split <;> simp_all

theorem numbered_orderIn? (body : Bytes) : Numbered SpotOrder.slot (orderIn? body) := by
  intro slot order here
  obtain ⟨-, rfl⟩ := orderIn?_eq_some_iff.mp here
  rfl

theorem readOrder_slice (data : Bytes) (inside : slot < orderSlots) :
    readOrder (slice data 5 3216) slot =
      { slot
        side := if (word128At data 125).getLsbD slot then .bid else .ask
        orderId := word128At data (141 + 16 * slot)
        price := (OrderKey.ofWord (word128At data (141 + 16 * slot))).price
        clientId := u64At data (2189 + 8 * slot) } := by
  rw [orderSlots] at inside
  rw [readOrder, word128At_slice data 5 (by omega), word128At_slice data 5 (by omega),
    u64At_slice data 5 (by omega), ← Nat.add_assoc, ← Nat.add_assoc]

theorem holds_of_orderIn? (whole : data.length = 3228) (inside : slot < orderSlots)
    (here : orderIn? (slice data 5 3216) slot = some order) : Holds data slot order := by
  obtain ⟨-, rfl⟩ := orderIn?_eq_some_iff.mp here
  rw [readOrder_slice data inside]
  rw [orderSlots] at inside
  refine ⟨?_, ofWord128_word128At (by omega), ofU64_u64At (by omega), OrderKey.price_ofWord _⟩
  cases bit : (word128At data 125).getLsbD slot <;> simp

/-- The account's mask is as wide as there are slots, so that no slot beyond the last is free. -/
theorem not_free_of_le (account : OpenOrders) (beyond : 128 ≤ slot) :
    account.isSlotFree slot = false :=
  BitVec.getLsbD_of_ge _ _ beyond

/-- Every slot is either free or has an order. -/
theorem length_orders_add_free (body : Bytes) :
    (readBody body).orders.length + (readBody body).freeSlots.cpop.toNat = 128 := by
  have all := List.length_eq_countP_add_countP (readBody body).freeSlots.getLsbD (l := List.range 128)
  rw [toNat_cpop_eq_countP]
  simp only [readBody, List.length_map, ← List.countP_eq_length_filter, orderSlots] at all ⊢
  rw [List.length_range] at all
  simp only [Bool.not_eq_true, Bool.decide_eq_false] at all
  omega

/-- All but the orders and the mask of bids is read before that mask and behind the tables. -/
theorem readBody_congr {body' : Bytes} (front : slice body' 0 120 = slice body 0 120)
    (back : slice body' 3208 8 = slice body 3208 8)
    (orders : ∀ slot < 128, (readBody body).isSlotFree slot = false →
      readOrder body' slot = readOrder body slot) :
    readBody body' = { readBody body with bidSlots := word128At body' 120 } := by
  have before {α : Type} {width offset : Nat} {read : Bytes → Nat → α} (reads : Local width read)
      (inside : offset + width ≤ 120) : read body' offset = read body offset :=
    reads.within front (Nat.zero_le _) (by omega)
  have mask : word128At body' 104 = word128At body 104 := before local_word128At (by omega)
  have listed : (readBody body').orders = (readBody body).orders := by
    rw [orders_readBody, orders_readBody]
    refine List.filterMap_congr fun slot member => ?_
    rw [orderIn?, orderIn?, mask]
    cases free : (word128At body 104).getLsbD slot with
    | true => rfl
    | false => rw [orders slot (List.mem_range.mp member) free]
  have rebates : u64At body' 3208 = u64At body 3208 := local_u64At _ _ _ back
  simp only [readBody, OpenOrders.mk.injEq, mask, rebates,
    before local_u64At (show 0 + 8 ≤ 120 by omega),
    before Address.local_readAt (show 8 + 32 ≤ 120 by omega),
    before Address.local_readAt (show 40 + 32 ≤ 120 by omega),
    before local_u64At (show 72 + 8 ≤ 120 by omega),
    before local_u64At (show 80 + 8 ≤ 120 by omega),
    before local_u64At (show 88 + 8 ≤ 120 by omega),
    before local_u64At (show 96 + 8 ≤ 120 by omega), true_and, and_true]
  simpa only [readBody, mask] using listed

/-- The bytes that belong to free slots: their order ids and clients' ids. -/
def IsSlack (account : OpenOrders) (place : Nat) : Prop :=
  ∃ slot, account.isSlotFree slot = true ∧
    (Within (141 + 16 * slot) 16 place ∨ Within (2189 + 8 * slot) 8 place)

theorem lt_of_free (free : account.isSlotFree slot = true) : slot < 128 := by
  by_contra beyond
  rw [not_free_of_le account (Nat.le_of_not_lt beyond)] at free
  cases free

theorem IsSlack.bounds {place : Nat} (slack : IsSlack account place) :
    141 ≤ place ∧ place < 3213 := by
  obtain ⟨slot, free, windows⟩ := slack
  have inside := lt_of_free free
  simp only [Within] at windows
  omega

variable (same : ∀ place, ¬IsSlack account place → ¬Within 125 16 place →
  data'[place]? = data[place]?)

include same

/-- A window is kept where neither the mask of bids nor a free slot has a part of it. -/
theorem slice_congr_of_slack {offset width : Nat} (beside : offset + width ≤ 125 ∨ 141 ≤ offset)
    (kept : ∀ place, Within offset width place → ¬IsSlack account place) :
    slice data' offset width = slice data offset width := by
  refine slice_congr fun place within => same place (kept place within) fun mask => ?_
  simp only [Within] at within mask
  omega

/-- The edges are what stands before the mask of bids and behind the tables. -/
theorem slice_congr_of_edge {offset width : Nat} (edge : offset + width ≤ 125 ∨ 3213 ≤ offset) :
    slice data' offset width = slice data offset width := by
  refine slice_congr_of_slack same (by omega) fun place within slack => ?_
  have := slack.bounds
  simp only [Within] at within
  omega

theorem readOrder_congr (below : slot < 128) (used : account.isSlotFree slot = false)
    (bid : (word128At data' 125).getLsbD slot = (word128At data 125).getLsbD slot) :
    readOrder (slice data' 5 3216) slot = readOrder (slice data 5 3216) slot := by
  have apart {place : Nat} (own : Within (141 + 16 * slot) 16 place ∨
      Within (2189 + 8 * slot) 8 place) : ¬IsSlack account place := by
    rintro ⟨other, free, windows⟩
    have inside := lt_of_free free
    simp only [Within] at own windows
    obtain rfl : other = slot := by omega
    rw [used] at free
    cases free
  have id : slice data' (141 + 16 * slot) 16 = slice data (141 + 16 * slot) 16 :=
    slice_congr_of_slack same (by omega) fun place within => apart (.inl within)
  have clientId : slice data' (2189 + 8 * slot) 8 = slice data (2189 + 8 * slot) 8 :=
    slice_congr_of_slack same (by omega) fun place within => apart (.inr within)
  rw [readOrder_slice data' below, readOrder_slice data below, bid, local_word128At _ _ _ id,
    local_u64At _ _ _ clientId]

/-- What free slots hold, and the bits that the mask of bids has for them, change that mask alone. -/
theorem decode_congr (decoded : decode data = .ok account)
    (bids : ∀ slot < 128, account.isSlotFree slot = false →
      (word128At data' 125).getLsbD slot = (word128At data 125).getLsbD slot) :
    decode data' = .ok { account with bidSlots := word128At data' 125 } := by
  obtain ⟨whole, head, tail, rfl⟩ := decode_eq_ok_iff.mp decoded
  have whole' : data'.length = 3228 := length_congr whole fun place le => by
    refine same place (fun slack => ?_) fun mask => ?_
    · have := slack.bounds
      omega
    · simp only [Within] at mask
      omega
  have front : slice (slice data' 5 3216) 0 120 = slice (slice data 5 3216) 0 120 := by
    rw [slice_slice (by omega), slice_slice (by omega), slice_congr_of_edge same (by omega)]
  have back : slice (slice data' 5 3216) 3208 8 = slice (slice data 5 3216) 3208 8 := by
    rw [slice_slice (by omega), slice_slice (by omega), slice_congr_of_edge same (by omega)]
  refine decode_eq_ok_iff.mpr ⟨whole', ?_, ?_, ?_⟩
  · rw [slice_congr_of_edge same (by omega), head]
  · rw [slice_congr_of_edge same (by omega), tail]
  · rw [readBody_congr front back fun slot below used =>
      readOrder_congr same below used (bids slot below used), word128At_slice data' 5 (by omega)]

omit same

/-- Of an account that is decoded the masks and the orders agree. The orders go by slot, one for each
slot that is not free; together with the free slots they make up all slots. Each holds what the
tables and the mask of bids tell for its slot. The tables and the mask of bids may hold anything for
free slots: the account is decoded all the same, and nothing but that mask is different. -/
theorem decode_orders_of_masks (decoded : decode data = .ok account) :
    account.freeSlots = word128At data 109 ∧ account.bidSlots = word128At data 125 ∧
      ListsSlots SpotOrder.slot (fun slot => slot < 128 ∧ account.isSlotFree slot = false)
        (Holds data) account.orders ∧
      account.orders.length + account.freeSlots.cpop.toNat = 128 ∧
      ∀ data', (∀ place, ¬IsSlack account place → ¬Within 125 16 place →
          data'[place]? = data[place]?) →
        (∀ slot < 128, account.isSlotFree slot = false →
          (word128At data' 125).getLsbD slot = (word128At data 125).getLsbD slot) →
        decode data' = .ok { account with bidSlots := word128At data' 125 } := by
  refine ⟨?_, ?_, ?_, ?_, fun data' same bids => decode_congr same decoded bids⟩
  all_goals obtain ⟨whole, -, -, rfl⟩ := decode_eq_ok_iff.mp decoded
  · exact word128At_slice data 5 (by omega)
  · exact word128At_slice data 5 (by omega)
  · rw [orders_readBody]
    refine listsSlots_records (numbered_orderIn? _) (fun slot => ?_) fun slot inside order =>
      holds_of_orderIn? whole inside
    simp only [orderIn?_eq_some_iff, exists_and_left, exists_eq', and_true]
    rfl
  · exact length_orders_add_free _

def allButEnds : BitVec 128 := 0x7ffffffffffffffffffffffffffffffe

def ends : Bytes :=
  Framing.wrap (List.replicate 104 0 ++ (ofWord128 allButEnds ++
    (ofWord128 0x80000000000000000000000000000000 ++ List.replicate 3080 0)))

/-- The last of the two orders is a bid. What stands for the order id of slot 1 does not matter. -/
theorem decode_ends :
    ∃ account, decode ends = .ok account ∧ decode (ends.set 157 9) = .ok account ∧
      (∀ slot, (∃ order ∈ account.orders, order.slot = slot) ↔ slot = 0 ∨ slot = 127) ∧
      account.orders.length = 2 ∧ ∃ order ∈ account.orders, order.slot = 127 ∧ order.side = .bid := by
  have free : word128At ends 109 = allButEnds := by decide +kernel
  have bids : word128At ends 125 = 0x80000000000000000000000000000000 := by decide +kernel
  have kept : word128At (ends.set 157 9) 125 = word128At ends 125 := by decide +kernel
  have used : ∀ slot < 128, allButEnds.getLsbD slot = false ↔ slot = 0 ∨ slot = 127 := by decide
  obtain ⟨account, decoded⟩ : ∃ account, decode ends = .ok account := by
    refine ⟨_, decode_eq_ok_iff.mpr ⟨?_, ?_, ?_, rfl⟩⟩ <;> decide +kernel
  obtain ⟨freeSlots, bidSlots, ⟨-, listed, held⟩, length, ignores⟩ := decode_orders_of_masks decoded
  refine ⟨account, decoded, ?_, fun slot => ?_, ?_, ?_⟩
  · have same := ignores (ends.set 157 9) (fun place slack _ => ?_) fun slot _ _ => by rw [kept]
    · rwa [kept, ← bidSlots] at same
    · refine List.getElem?_set_ne ?_
      rintro rfl
      refine slack ⟨1, ?_, .inl (by simp [Within])⟩
      rw [isSlotFree, freeSlots, free]
      decide
  · rw [listed, isSlotFree, freeSlots, free]
    constructor
    · rintro ⟨inside, taken⟩
      exact (used slot inside).mp taken
    · intro here
      have inside : slot < 128 := by omega
      exact ⟨inside, (used slot inside).mpr here⟩
  · have count : allButEnds.cpop.toNat = 126 := by decide +kernel
    rw [freeSlots, free, count] at length
    omega
  · obtain ⟨order, member, slot⟩ := (listed 127).mpr ⟨by omega, by
      rw [isSlotFree, freeSlots, free]
      decide⟩
    refine ⟨order, member, slot, (held order member).bid_iff.mpr ?_⟩
    rw [slot, bids]
    decide

end OpenOrders
end PerpDex
