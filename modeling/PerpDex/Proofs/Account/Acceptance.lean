import PerpDex.Account.Layout
import PerpDex.Proofs.Account.OrderSlots
import PerpDex.Proofs.Book.SideBytes
import PerpDex.Proofs.Queue.Decoding

/-! Which data the ten layouts read, told by their length and their first byte. The length is one
number for most layouts and one of a progression for the queues. The first byte names the kind of
the account, but for the two layouts of the spot market, which have the same marker in front and are
told apart by their lengths. So no data are read by two layouts. -/
namespace PerpDex

namespace Bytes

@[simp] theorem natAt_zeros (n offset width : Nat) :
    natAt (List.replicate n 0) offset width = 0 := by
  rw [natAt, slice, List.drop_replicate, List.take_replicate]
  induction min width (n - offset) with
  | zero => rfl
  | succ n ih => simp [List.replicate_succ, toNat, ih]

@[simp] theorem u8At_cons_zero (b : UInt8) (data : Bytes) : u8At (b :: data) 0 = b := by
  simp [u8At, natAt, slice, toNat]

def blank (first : UInt8) (n : Nat) : Bytes := first :: List.replicate (n - 1) 0

theorem length_blank (first : UInt8) {n : Nat} (pos : 0 < n) : (blank first n).length = n := by
  simp only [blank, List.length_cons, List.length_replicate]
  omega

theorem natAt_blank_succ (first : UInt8) (n offset width : Nat) :
    natAt (blank first n) (offset + 1) width = 0 :=
  natAt_zeros (n - 1) offset width

end Bytes

namespace Framing

def size : Nat := head.length + tail.length

theorem length_wrap (body : Bytes) : (wrap body).length = size + body.length := by
  simp only [wrap, size, List.length_append]
  omega

theorem u8At_wrap (body : Bytes) : Bytes.u8At (wrap body) 0 ∈ head.take 1 := by
  simp [wrap, head]

end Framing

open Bytes

namespace EventQueue

theorem exists_perp_decode (slots : Nat) :
    ∃ data, data.length = headerSize + PerpEvent.size * slots ∧
      ∃ q, PerpEventQueue.decode data = .ok q := by
  have whole := length_blank AccountKind.eventQueue.toByte
    (show 0 < headerSize + PerpEvent.size * slots from Nat.add_pos_left (by decide) _)
  have none : rawCount (blank AccountKind.eventQueue.toByte (headerSize + PerpEvent.size * slots)) =
      0 := by
    rw [rawCount, u64At, natAt_blank_succ]
    rfl
  have shaped : Shaped PerpEvent.size slots _ := ⟨whole, by simp [none]⟩
  exact ⟨_, whole, _, (perp_decode_eq_ok_iff _ _).mpr ⟨slots, shaped, u8At_cons_zero _ _, rfl⟩⟩

theorem exists_spot_decode (slots : Nat) :
    ∃ data, data.length = Framing.size + headerSize + SpotEvent.size * slots ∧
      ∃ q, SpotEventQueue.decode data = .ok q := by
  let body : Bytes := List.replicate (headerSize + SpotEvent.size * slots) 0
  have none : rawCount body = 0 := by
    rw [rawCount, u64At, natAt_zeros]
    rfl
  have shaped : Shaped SpotEvent.size slots body := ⟨List.length_replicate, by simp [none]⟩
  refine ⟨Framing.wrap body, ?_, _, (spot_decode_eq_ok_iff _ _).mpr ⟨body, slots, rfl, shaped, rfl⟩⟩
  rw [Framing.length_wrap, List.length_replicate, Nat.add_assoc]

end EventQueue

theorem MarginAccount.exists_readOrders {data : Bytes} {slots : List Nat}
    (known : ∀ slot ∈ slots, ∃ side, Side.ofByte? (orderSide data slot) = some side) :
    ∃ orders, readOrders data slots = .ok orders := by
  have none : slots.find? (stopsAt data) = none := by
    refine List.find?_eq_none.mpr fun slot member => ?_
    obtain ⟨side, here⟩ := known slot member
    simp [stopsAt, here]
  rw [readOrders_eq, none]
  exact ⟨_, rfl⟩

theorem MarginAccount.exists_readOrders_blank (first : UInt8) (n : Nat) :
    ∃ orders, readOrders (blank first n) (List.range orderSlots) = .ok orders := by
  refine exists_readOrders fun slot _ => ⟨.bid, ?_⟩
  have zero : orderSide (blank first n) slot = 0 := by
    rw [orderSide, u8At, show 2584 + slot = 2583 + slot + 1 by omega, natAt_blank_succ]
    rfl
  rw [zero]
  rfl

theorem MarginAccount.exists_decode :
    ∃ data, data.length = size ∧ ∃ account, decode data = .ok account := by
  have whole := length_blank AccountKind.marginAccount.toByte (show 0 < size by decide)
  obtain ⟨orders, read⟩ := exists_readOrders_blank AccountKind.marginAccount.toByte size
  refine ⟨_, whole, ?_⟩
  simp only [decode, bind_eq_ok_iff, checkSize_eq_ok_iff, Header.check_eq_ok_iff]
  exact ⟨_, (), whole, (), u8At_cons_zero _ _, orders, read, rfl⟩

theorem OpenOrders.exists_decode :
    ∃ data, data.length = size ∧ ∃ account, decode data = .ok account := by
  let body : Bytes := List.replicate bodySize 0
  have whole : (Framing.wrap body).length = size := by
    rw [Framing.length_wrap, List.length_replicate]
    rfl
  refine ⟨_, whole, ?_⟩
  simp only [decode, bind_eq_ok_iff, checkSize_eq_ok_iff, Framing.unwrap_wrap]
  exact ⟨_, (), whole, body, rfl, rfl⟩

theorem BookSide.exists_decode :
    ∃ data, data.length = size ∧ ∃ book, decode data = .ok book := by
  have full : unused.nodes.length = capacity := List.length_replicate
  exact ⟨_, length_encode full, _, decode_encode full rfl⟩

namespace Layout

variable {layout other : Layout} {data : Bytes} {account : Account} {n : Nat}

theorem mem_all (layout : Layout) : layout ∈ all := by
  cases layout <;> decide

def size? : Layout → Option Nat
  | group => some Group.size
  | cache => some PriceCache.size
  | rootBank => some RootBank.size
  | nodeBank => some NodeBank.size
  | marginAccount => some MarginAccount.size
  | openOrders => some OpenOrders.size
  | perpMarket => some PerpMarket.size
  | bookSide => some BookSide.size
  | perpEventQueue | spotEventQueue => none

def Fits : Layout → Nat → Prop
  | perpEventQueue, n => ∃ slots, n = EventQueue.headerSize + PerpEvent.size * slots
  | spotEventQueue, n => ∃ slots, n = Framing.size + EventQueue.headerSize + SpotEvent.size * slots
  | layout, n => layout.size? = some n

def firstBytes : Layout → List UInt8
  | group => [AccountKind.group.toByte]
  | cache => [AccountKind.cache.toByte]
  | rootBank => [AccountKind.rootBank.toByte]
  | nodeBank => [AccountKind.nodeBank.toByte]
  | marginAccount => [AccountKind.marginAccount.toByte]
  | openOrders | spotEventQueue => Framing.head.take 1
  | perpMarket => [AccountKind.perpMarket.toByte]
  | bookSide => [AccountKind.bids.toByte, AccountKind.asks.toByte]
  | perpEventQueue => [AccountKind.eventQueue.toByte]

/-- The length and the first byte of data that are read. -/
theorem outline_of_decode (decoded : layout.decode data = .ok account) :
    layout.Fits data.length ∧ u8At data 0 ∈ layout.firstBytes := by
  cases layout with
  | openOrders =>
    simp only [decode, OpenOrders.decode, map_eq_ok_iff, bind_eq_ok_iff, checkSize_eq_ok_iff,
      Framing.unwrap_eq_ok_iff] at decoded
    obtain ⟨-, ⟨-, whole, body, rfl, -⟩, -⟩ := decoded
    exact ⟨congrArg some whole.symm, Framing.u8At_wrap body⟩
  | bookSide =>
    obtain ⟨book, read, -⟩ := map_eq_ok_iff.mp decoded
    obtain ⟨whole, kind⟩ := BookSide.kind_of_decode read
    have known := (BookSide.exists_kindOf_iff _).mp kind
    exact ⟨congrArg some whole.symm, by simpa [firstBytes] using known⟩
  | perpEventQueue =>
    obtain ⟨q, read, -⟩ := map_eq_ok_iff.mp decoded
    obtain ⟨slots, shaped, kind, -⟩ := (EventQueue.perp_decode_eq_ok_iff data q).mp read
    exact ⟨⟨slots, shaped.length_eq⟩, List.mem_singleton.mpr kind⟩
  | spotEventQueue =>
    obtain ⟨q, read, -⟩ := map_eq_ok_iff.mp decoded
    obtain ⟨body, slots, rfl, shaped, -⟩ := (EventQueue.spot_decode_eq_ok_iff data q).mp read
    refine ⟨⟨slots, ?_⟩, Framing.u8At_wrap body⟩
    rw [Framing.length_wrap, shaped.length_eq, Nat.add_assoc]
    rfl
  | _ =>
    simp only [decode, Group.decode, PriceCache.decode, RootBank.decode, NodeBank.decode,
      MarginAccount.decode, PerpMarket.decode, map_eq_ok_iff, bind_eq_ok_iff, checkSize_eq_ok_iff,
      Header.check_eq_ok_iff] at decoded
    obtain ⟨-, ⟨-, whole, -, kind, -⟩, -⟩ := decoded
    exact ⟨congrArg some whole.symm, List.mem_singleton.mpr kind⟩

def Accepts (layout : Layout) (n : Nat) : Prop :=
  ∃ data, data.length = n ∧ ∃ account, layout.decode data = .ok account

theorem accepts_of_read {α : Type} {make : α → Account} {read : Bytes → Except Error α}
    (same : ∀ data, layout.decode data = make <$> read data)
    (readable : ∃ data, data.length = n ∧ ∃ a, read data = .ok a) : layout.Accepts n := by
  obtain ⟨data, whole, a, decoded⟩ := readable
  exact ⟨data, whole, make a, (same data).trans (map_eq_ok_iff.mpr ⟨a, decoded, rfl⟩)⟩

/-- Zero bytes behind the right first byte are data of most layouts. -/
theorem accepts_of_fits (fits : layout.Fits n) : layout.Accepts n := by
  have known := u8At_cons_zero (layout.firstBytes.headD 0) (List.replicate (n - 1) 0)
  have whole := length_blank (layout.firstBytes.headD 0) (n := n)
  cases layout with
  | marginAccount =>
    obtain rfl := Option.some.inj fits
    exact accepts_of_read (fun _ => rfl) MarginAccount.exists_decode
  | openOrders =>
    obtain rfl := Option.some.inj fits
    exact accepts_of_read (fun _ => rfl) OpenOrders.exists_decode
  | bookSide =>
    obtain rfl := Option.some.inj fits
    exact accepts_of_read (fun _ => rfl) BookSide.exists_decode
  | perpEventQueue =>
    obtain ⟨slots, rfl⟩ := fits
    exact accepts_of_read (fun _ => rfl) (EventQueue.exists_perp_decode slots)
  | spotEventQueue =>
    obtain ⟨slots, rfl⟩ := fits
    exact accepts_of_read (fun _ => rfl) (EventQueue.exists_spot_decode slots)
  | _ =>
    obtain rfl := Option.some.inj fits
    have whole := whole (by decide)
    refine ⟨_, whole, ?_⟩
    simp only [decode, Group.decode, PriceCache.decode, RootBank.decode, NodeBank.decode,
      PerpMarket.decode, map_eq_ok_iff, bind_eq_ok_iff, checkSize_eq_ok_iff, Header.check_eq_ok_iff]
    exact ⟨_, _, ⟨(), whole, (), known, rfl⟩, rfl⟩

theorem accepts_iff_fits : layout.Accepts n ↔ layout.Fits n := by
  constructor
  · rintro ⟨data, rfl, account, decoded⟩
    exact (outline_of_decode decoded).1
  · exact accepts_of_fits

/-- Two layouts whose data may start with one byte are the two of the spot market. -/
theorem spot_of_firstBytes :
    ∀ layout ∈ all, ∀ other ∈ all, layout ≠ other →
      ∀ byte ∈ layout.firstBytes, byte ∈ other.firstBytes →
        layout = openOrders ∧ other = spotEventQueue ∨
          layout = spotEventQueue ∧ other = openOrders := by
  decide +kernel

/-- No event queue has the length of an open orders account. -/
theorem not_fits_openOrders_spotEventQueue : ¬(openOrders.Fits n ∧ spotEventQueue.Fits n) := by
  rintro ⟨fixed, slots, rfl⟩
  have same : 3228 = 44 + 88 * slots := Option.some.inj fixed
  omega

theorem eq_of_decode {account' : Account} (decoded : layout.decode data = .ok account)
    (decoded' : other.decode data = .ok account') : layout = other := by
  obtain ⟨fits, byte⟩ := outline_of_decode decoded
  obtain ⟨fits', byte'⟩ := outline_of_decode decoded'
  by_contra differ
  obtain ⟨rfl, rfl⟩ | ⟨rfl, rfl⟩ :=
    spot_of_firstBytes _ (mem_all _) _ (mem_all _) differ _ byte byte'
  · exact not_fits_openOrders_spotEventQueue ⟨fits, fits'⟩
  · exact not_fits_openOrders_spotEventQueue ⟨fits', fits⟩

theorem exists_fits (layout : Layout) : ∃ n, layout.Fits n := by
  cases layout with
  | perpEventQueue => exact ⟨_, 0, rfl⟩
  | spotEventQueue => exact ⟨_, 0, rfl⟩
  | _ => exact ⟨_, rfl⟩

def readers (data : Bytes) : List Layout := all.filter fun layout => (layout.decode data).isOk

theorem mem_readers_iff : layout ∈ readers data ↔ ∃ account, layout.decode data = .ok account := by
  rw [readers, List.mem_filter]
  cases layout.decode data <;> simp [mem_all, Except.isOk, Except.toBool]

theorem readers_of_decode (decoded : layout.decode data = .ok account) :
    readers data = [layout] := by
  have only (other : Layout) : (other.decode data).isOk = (other == layout) := by
    cases read : other.decode data with
    | ok _ => simp [eq_of_decode read decoded, Except.isOk, Except.toBool]
    | error _ =>
      have differ : other ≠ layout := by
        rintro rfl
        simp [read] at decoded
      simp [differ, Except.isOk, Except.toBool]
  rw [readers, funext only]
  cases layout <;> decide

/-- No data are read by two of the ten layouts. Each of them reads some data. -/
theorem decoders_exclusive :
    (∀ data, (readers data).length ≤ 1) ∧ ∀ layout, ∃ data, readers data = [layout] := by
  constructor
  · intro data
    rcases read : readers data with _ | ⟨layout, rest⟩
    · exact Nat.zero_le 1
    · have member : layout ∈ readers data := by simp [read]
      obtain ⟨account, decoded⟩ := mem_readers_iff.mp member
      rw [← read, readers_of_decode decoded]
      exact Nat.le_refl 1
  · intro layout
    obtain ⟨n, fits⟩ := layout.exists_fits
    obtain ⟨data, -, account, decoded⟩ := accepts_of_fits fits
    exact ⟨data, readers_of_decode decoded⟩

end Layout
end PerpDex
