import PerpDex.Account.MarginAccount
import PerpDex.Proofs.Account.SlotRecords
import PerpDex.Proofs.Bytes.Windows

/-! The order slots of a margin account. An account is refused exactly for the side of a slot that
is in use, and then for the lowest such slot. Otherwise its orders are those of the slots in use, by
slot, each with what the parallel tables hold for that slot; what they hold for free slots does not
matter. -/
namespace PerpDex

theorem Side.ofByte?_eq_none_iff (byte : UInt8) : ofByte? byte = none ↔ 1 < byte := by
  unfold ofByte?
  grind

open Bytes

theorem PerpPosition.local_readAt : Local 96 readAt := by
  intro data data' offset same
  have word {place : Nat} (le : offset ≤ place) (inside : place + 8 ≤ offset + 96) :
      i64At data' place = i64At data place := local_i64At.within same le inside
  have number {place : Nat} (le : offset ≤ place) (inside : place + 16 ≤ offset + 96) :
      SignedFixed.readAt data' place = SignedFixed.readAt data place :=
    SignedFixed.local_readAt.within same le inside
  have accrued : u64At data' (offset + 88) = u64At data (offset + 88) :=
    local_u64At.within same (by omega) (by omega)
  rw [readAt, readAt, word (by omega) (by omega), number (by omega) (by omega),
    number (by omega) (by omega), number (by omega) (by omega), word (by omega) (by omega),
    word (by omega) (by omega), word (by omega) (by omega), word (by omega) (by omega), accrued]

namespace MarginAccount

variable {data data' : Bytes} {account : MarginAccount} {order : PerpOrder} {slot : Nat}

def Used (data : Bytes) (slot : Nat) : Prop := slot < orderSlots ∧ orderMarket data slot ≠ freeSlot

def Spoiled (data : Bytes) (slot : Nat) : Prop := Used data slot ∧ 1 < orderSide data slot

/-- What the tables hold for the slot of an order. -/
structure Holds (data : Bytes) (slot : Nat) (order : PerpOrder) : Prop where
  market_eq : order.market = (orderMarket data slot).toNat
  side_eq : order.side.toByte = orderSide data slot
  orderId_eq : ofWord128 order.orderId = slice data (2648 + 16 * slot) 16
  clientOrderId_eq : ofU64 order.clientOrderId = slice data (3672 + 8 * slot) 8

def orderIn? (data : Bytes) (slot : Nat) : Option PerpOrder :=
  if orderMarket data slot = freeSlot then none
  else (Side.ofByte? (orderSide data slot)).map (readOrder data slot)

def stopsAt (data : Bytes) (slot : Nat) : Bool :=
  orderMarket data slot ≠ freeSlot && (Side.ofByte? (orderSide data slot)).isNone

/-- The first slot at which reading stops decides the error. -/
theorem readOrders_eq (data : Bytes) (slots : List Nat) :
    readOrders data slots =
      match slots.find? (stopsAt data) with
      | some slot => .error (.unknownTag .side (orderSide data slot).toUInt32)
      | none => .ok (slots.filterMap (orderIn? data)) := by
  induction slots with
  | nil => rfl
  | cons slot slots ih =>
    rw [readOrders, List.find?_cons, List.filterMap_cons, orderIn?, stopsAt, ih]
    by_cases free : orderMarket data slot = freeSlot
    · simp [free]
    · cases side : Side.ofByte? (orderSide data slot) with
      | none => simp [free]
      | some side =>
        cases found : slots.find? (stopsAt data) <;>
          simp [free, bind, Except.bind, pure, Except.pure]

theorem orderIn?_eq_some_iff :
    orderIn? data slot = some order ↔ orderMarket data slot ≠ freeSlot ∧
      ∃ side, Side.ofByte? (orderSide data slot) = some side ∧ readOrder data slot side = order := by
  rw [orderIn?]
  split <;> simp_all

theorem numbered_orderIn? (data : Bytes) : Numbered PerpOrder.slot (orderIn? data) := by
  intro slot order here
  obtain ⟨-, side, -, rfl⟩ := orderIn?_eq_some_iff.mp here
  rfl

theorem holds_of_orderIn? (whole : data.length = size) (inside : slot < orderSlots)
    (here : orderIn? data slot = some order) : Holds data slot order := by
  obtain ⟨-, side, known, rfl⟩ := orderIn?_eq_some_iff.mp here
  rw [size] at whole
  rw [orderSlots] at inside
  exact ⟨rfl, Side.toByte_of_ofByte? known, ofWord128_word128At (by omega),
    ofU64_u64At (by omega)⟩

theorem spoiled_iff : Spoiled data slot ↔ slot < orderSlots ∧ stopsAt data slot = true := by
  rw [Spoiled, Used, ← Side.ofByte?_eq_none_iff]
  simp [stopsAt, and_assoc]

/-- In an account without spoiled slots every used slot gives its order. -/
theorem used_iff (sound : ∀ slot, ¬Spoiled data slot) (slot : Nat) :
    Used data slot ↔ slot < orderSlots ∧ ∃ order, orderIn? data slot = some order := by
  constructor
  · intro used
    cases known : Side.ofByte? (orderSide data slot) with
    | none => exact absurd ⟨used, (Side.ofByte?_eq_none_iff _).mp known⟩ (sound slot)
    | some side => exact ⟨used.1, _, orderIn?_eq_some_iff.mpr ⟨used.2, side, known, rfl⟩⟩
  · rintro ⟨inside, order, here⟩
    exact ⟨inside, (orderIn?_eq_some_iff.mp here).1⟩

theorem find?_stopsAt_eq_some_iff :
    (List.range orderSlots).find? (stopsAt data) = some slot ↔
      IsLeast {slot | Spoiled data slot} slot := by
  have ascending : (List.range orderSlots).Pairwise fun i j => id i < id j := List.pairwise_lt_range
  rw [find?_eq_some_iff_of_ascending ascending]
  simp only [IsLeast, lowerBounds, Set.mem_ofPred_eq, spoiled_iff, List.mem_range, id, and_assoc,
    and_imp]

theorem find?_stopsAt_eq_none_iff :
    (List.range orderSlots).find? (stopsAt data) = none ↔ ∀ slot, ¬Spoiled data slot := by
  simp only [List.find?_eq_none, List.mem_range, spoiled_iff, not_and]

def ofBytes (data : Bytes) (perpOrders : List PerpOrder) : MarginAccount where
  header := Header.read data
  group := Address.readAt data 8
  owner := Address.readAt data 40
  inMarginBasket := table data 72 1 marketSlots flagAt
  numInMarginBasket := u8At data 87
  deposits := table data 88 16 tokenSlots SignedFixed.readAt
  borrows := table data 344 16 tokenSlots SignedFixed.readAt
  spotOpenOrders := table data 600 32 marketSlots fun data offset =>
    (Address.readAt data offset).present?
  perpPositions := table data 1080 96 marketSlots PerpPosition.readAt
  perpOrders
  msrmAmount := u64At data 4184
  beingLiquidated := flagAt data 4192
  isBankrupt := flagAt data 4193
  info := slice data 4194 32
  advancedOrders := (Address.readAt data 4226).present?
  notUpgradable := flagAt data 4258
  delegate := (Address.readAt data 4259).present?

theorem decode_eq (whole : data.length = size)
    (kind : u8At data 0 = AccountKind.marginAccount.toByte) :
    decode data = ofBytes data <$> readOrders data (List.range orderSlots) := by
  have checked : (Header.read data).check .marginAccount = .ok () := if_pos kind
  rw [decode, checkSize, if_pos whole]
  simp only [bind, Except.bind, checked]
  cases readOrders data (List.range orderSlots) <;> rfl

/-- The tables of the orders' sides, ids and clients' ids lie between the rest of the account. -/
theorem ofBytes_congr (front : slice data' 0 2584 = slice data 0 2584)
    (back : slice data' 4184 112 = slice data 4184 112) (perpOrders : List PerpOrder) :
    ofBytes data' perpOrders = ofBytes data perpOrders := by
  have before {α : Type} {width offset : Nat} {read : Bytes → Nat → α} (reads : Local width read)
      (inside : offset + width ≤ 2584) : read data' offset = read data offset :=
    reads.within front (Nat.zero_le _) (by omega)
  have behind {α : Type} {width offset : Nat} {read : Bytes → Nat → α} (reads : Local width read)
      (le : 4184 ≤ offset) (inside : offset + width ≤ 4296) : read data' offset = read data offset :=
    reads.within back le inside
  have entries {α : Type} {width stride offset count : Nat} {read : Bytes → Nat → α}
      (reads : Local width read) (fits : width ≤ stride) (inside : offset + stride * count ≤ 2584) :
      table data' offset stride count read = table data offset stride count read :=
    reads.table_congr fits front (Nat.zero_le _) (by omega)
  have present : Local 32 fun data offset => (Address.readAt data offset).present? :=
    fun _ _ _ same => congrArg Address.present? (Address.local_readAt _ _ _ same)
  have info : slice data' 4194 32 = slice data 4194 32 :=
    slice_congr_within back (by omega) (by omega)
  simp only [ofBytes, tokenSlots, marketSlots,
    Header.read_congr (slice_congr_within front (Nat.zero_le _) (by omega)), info,
    before Address.local_readAt (show 8 + 32 ≤ 2584 by omega),
    before Address.local_readAt (show 40 + 32 ≤ 2584 by omega),
    before local_u8At (show 87 + 1 ≤ 2584 by omega),
    entries local_flagAt (Nat.le_refl 1) (show 72 + 1 * 15 ≤ 2584 by omega),
    entries SignedFixed.local_readAt (Nat.le_refl 16) (show 88 + 16 * 16 ≤ 2584 by omega),
    entries SignedFixed.local_readAt (Nat.le_refl 16) (show 344 + 16 * 16 ≤ 2584 by omega),
    entries present (Nat.le_refl 32) (show 600 + 32 * 15 ≤ 2584 by omega),
    entries PerpPosition.local_readAt (Nat.le_refl 96) (show 1080 + 96 * 15 ≤ 2584 by omega),
    behind local_u64At (Nat.le_refl 4184) (by omega),
    behind local_flagAt (show 4184 ≤ 4192 by omega) (by omega),
    behind local_flagAt (show 4184 ≤ 4193 by omega) (by omega),
    behind local_flagAt (show 4184 ≤ 4258 by omega) (by omega),
    behind Address.local_readAt (show 4184 ≤ 4226 by omega) (by omega),
    behind Address.local_readAt (show 4184 ≤ 4259 by omega) (by omega)]

/-- The bytes that belong to free slots: their sides, order ids and clients' ids. -/
def IsSlack (data : Bytes) (place : Nat) : Prop :=
  ∃ slot < orderSlots, orderMarket data slot = freeSlot ∧
    (Within (2584 + slot) 1 place ∨ Within (2648 + 16 * slot) 16 place ∨
      Within (3672 + 8 * slot) 8 place)

theorem IsSlack.bounds {place : Nat} (slack : IsSlack data place) :
    2584 ≤ place ∧ place < 4184 := by
  obtain ⟨slot, inside, -, windows⟩ := slack
  simp only [Within, orderSlots] at inside windows
  omega

variable (same : ∀ place, ¬IsSlack data place → data'[place]? = data[place]?)

include same

theorem slice_congr_of_slack {offset width : Nat}
    (kept : ∀ place, Within offset width place → ¬IsSlack data place) :
    slice data' offset width = slice data offset width :=
  slice_congr fun place within => same place (kept place within)

theorem orderMarket_congr (inside : slot < orderSlots) :
    orderMarket data' slot = orderMarket data slot := by
  refine local_u8At _ _ _ (slice_congr_of_slack same fun place within slack => ?_)
  have := slack.bounds
  simp only [Within, orderSlots] at inside within
  omega

/-- The windows of a slot in use overlap with those of no free slot. -/
theorem readOrder_congr (used : Used data slot) :
    orderSide data' slot = orderSide data slot ∧
      ∀ side, readOrder data' slot side = readOrder data slot side := by
  have inside := used.1
  rw [orderSlots] at inside
  have kept {offset width : Nat} (own : ∀ place, Within offset width place →
      Within (2584 + slot) 1 place ∨ Within (2648 + 16 * slot) 16 place ∨
        Within (3672 + 8 * slot) 8 place) :
      slice data' offset width = slice data offset width := by
    -- A place in a window of this slot and in one of a free slot would make the two slots the same.
    refine slice_congr_of_slack same fun place within ⟨other, below, free, windows⟩ => used.2 ?_
    have owns := own place within
    simp only [Within, orderSlots] at owns below windows
    obtain rfl : other = slot := by omega
    exact free
  have side : orderSide data' slot = orderSide data slot :=
    local_u8At _ _ _ (kept fun _ within => .inl within)
  have id : word128At data' (2648 + 16 * slot) = word128At data (2648 + 16 * slot) :=
    local_word128At _ _ _ (kept fun _ within => .inr (.inl within))
  have clientId : u64At data' (3672 + 8 * slot) = u64At data (3672 + 8 * slot) :=
    local_u64At _ _ _ (kept fun _ within => .inr (.inr within))
  refine ⟨side, fun _ => ?_⟩
  rw [readOrder, readOrder, orderMarket_congr same used.1, id, clientId]

theorem readOrders_congr (slots : List Nat) (inside : ∀ slot ∈ slots, slot < orderSlots) :
    readOrders data' slots = readOrders data slots := by
  induction slots with
  | nil => rfl
  | cons slot slots ih =>
    obtain ⟨here, behind⟩ := List.forall_mem_cons.mp inside
    rw [readOrders, readOrders, ih behind, orderMarket_congr same here]
    by_cases free : orderMarket data slot = freeSlot
    · rw [if_pos free, if_pos free]
    · obtain ⟨side, order⟩ := readOrder_congr same ⟨here, free⟩
      simp only [if_neg free, side, order]

/-- Whatever the tables hold for free slots, the account is decoded, or refused, alike. -/
theorem decode_congr (whole : data.length = size)
    (kind : u8At data 0 = AccountKind.marginAccount.toByte) : decode data' = decode data := by
  have front : slice data' 0 2584 = slice data 0 2584 := by
    refine slice_congr_of_slack same fun place within slack => ?_
    exact Nat.not_le.mpr within.2 (by simpa using slack.bounds.1)
  have back : slice data' 4184 112 = slice data 4184 112 :=
    slice_congr_of_slack same fun place within slack => Nat.not_le.mpr slack.bounds.2 within.1
  have whole' : data'.length = size :=
    length_congr whole fun place le => same place fun slack =>
      Nat.not_le.mpr slack.bounds.2 (Nat.le_trans (by decide) le)
  have kind' : u8At data' 0 = AccountKind.marginAccount.toByte :=
    (local_u8At.within front (Nat.zero_le 0) (by omega)).trans kind
  rw [decode_eq whole kind, decode_eq whole' kind', funext (ofBytes_congr front back),
    readOrders_congr same _ fun slot member => List.mem_range.mp member]

omit same

section Decoded

variable (whole : data.length = size) (kind : u8At data 0 = AccountKind.marginAccount.toByte)

include whole kind

theorem decode_eq_ok_iff :
    decode data = .ok account ↔ (∀ slot, ¬Spoiled data slot) ∧
      ofBytes data (records (orderIn? data) orderSlots) = account := by
  simp only [decode_eq whole kind, map_eq_ok_iff, readOrders_eq, ← find?_stopsAt_eq_none_iff]
  cases (List.range orderSlots).find? (stopsAt data) <;> simp [records]

theorem decode_eq_error_iff {e : Error} :
    decode data = .error e ↔ ∃ slot, IsLeast {slot | Spoiled data slot} slot ∧
      e = .unknownTag .side (orderSide data slot).toUInt32 := by
  simp only [decode_eq whole kind, map_eq_error_iff, readOrders_eq, ← find?_stopsAt_eq_some_iff]
  cases (List.range orderSlots).find? (stopsAt data) <;> simp [eq_comm]

end Decoded

def UsedBy (data : Bytes) (id : UInt64) (slot : Nat) : Prop :=
  Used data slot ∧ slice data (3672 + 8 * slot) 8 = ofU64 id

theorem usedBy_iff (whole : data.length = size) (sound : ∀ slot, ¬Spoiled data slot) (id : UInt64) :
    UsedBy data id slot ↔ slot < orderSlots ∧
      ∃ order, orderIn? data slot = some order ∧ order.clientOrderId = id := by
  rw [UsedBy, used_iff sound]
  constructor
  · rintro ⟨⟨inside, order, here⟩, window⟩
    have stored := (holds_of_orderIn? whole inside here).clientOrderId_eq
    obtain ⟨-, side, -, rfl⟩ := orderIn?_eq_some_iff.mp here
    exact ⟨inside, _, here, u64At_of_slice window⟩
  · rintro ⟨inside, order, here, rfl⟩
    exact ⟨⟨inside, order, here⟩, (holds_of_orderIn? whole inside here).clientOrderId_eq.symm⟩

section Listed

variable (whole : data.length = size) (sound : ∀ slot, ¬Spoiled data slot)
  (listed : account.perpOrders = records (orderIn? data) orderSlots)

include whole sound listed

theorem listsSlots_perpOrders :
    ListsSlots PerpOrder.slot (Used data) (Holds data) account.perpOrders := by
  rw [listed]
  exact listsSlots_records (numbered_orderIn? data) (used_iff sound)
    fun slot inside order => holds_of_orderIn? whole inside

theorem listsSlots_ordersOn (market : Nat) :
    ListsSlots PerpOrder.slot (fun slot => Used data slot ∧ (orderMarket data slot).toNat = market)
      (Holds data) (account.ordersOn market) := by
  have lists := listsSlots_perpOrders whole sound listed
  refine lists.filter fun order member => ?_
  rw [decide_eq_true_eq, (lists.held order member).market_eq]

theorem orderByClientId?_eq_some_iff (id : UInt64) (order : PerpOrder) :
    account.orderByClientId? id = some order ↔ order ∈ account.perpOrders ∧
      IsLeast {slot | UsedBy data id slot} order.slot := by
  rw [orderByClientId?, listed, find?_records_eq_some_iff (numbered_orderIn? data),
    mem_records_iff (numbered_orderIn? data)]
  simp only [usedBy_iff whole sound, decide_eq_true_eq]
  constructor
  · rintro ⟨here, lowest⟩
    exact ⟨⟨lowest.1.1, here⟩, lowest⟩
  · rintro ⟨⟨-, here⟩, lowest⟩
    exact ⟨here, lowest⟩

theorem orderByClientId?_eq_none_iff (id : UInt64) :
    account.orderByClientId? id = none ↔ ∀ slot, ¬UsedBy data id slot := by
  simp only [orderByClientId?, listed, find?_records_eq_none_iff, usedBy_iff whole sound,
    decide_eq_false_iff_not, not_and, not_exists]

end Listed

/-- Of bytes of the right number and kind the sides of the slots in use decide whether they are an
account; the lowest slot whose side is not known is reported. An account lists its orders by slot,
one for each slot in use, with what the tables hold for that slot. So do its orders on a market, for
the slots with that market; a client's id finds the order of the lowest slot that holds one with that
id. What free slots hold beside their market changes neither the account nor the report. -/
theorem decode_lists_orders (whole : data.length = 4296)
    (kind : u8At data 0 = AccountKind.marginAccount.toByte) :
    (∀ e, decode data = .error e ↔ ∃ slot, IsLeast {slot | Spoiled data slot} slot ∧
        e = .unknownTag .side (orderSide data slot).toUInt32) ∧
      ((∃ account, decode data = .ok account) ↔ ∀ slot, ¬Spoiled data slot) ∧
      (∀ account, decode data = .ok account →
        ListsSlots PerpOrder.slot (Used data) (Holds data) account.perpOrders ∧
        (∀ market, (account.ordersOn market).Sublist account.perpOrders ∧
          ListsSlots PerpOrder.slot
            (fun slot => Used data slot ∧ (orderMarket data slot).toNat = market) (Holds data)
            (account.ordersOn market)) ∧
        ∀ id,
          (∀ order, account.orderByClientId? id = some order ↔ order ∈ account.perpOrders ∧
            IsLeast {slot | UsedBy data id slot} order.slot) ∧
          (account.orderByClientId? id = none ↔ ∀ slot, ¬UsedBy data id slot)) ∧
      ∀ data', (∀ place, ¬IsSlack data place → data'[place]? = data[place]?) →
        decode data' = decode data := by
  refine ⟨fun e => decode_eq_error_iff whole kind, ?_, ?_, fun data' same => ?_⟩
  · simp [decode_eq_ok_iff whole kind]
  · intro account decoded
    obtain ⟨sound, rfl⟩ := (decode_eq_ok_iff whole kind).mp decoded
    exact ⟨listsSlots_perpOrders whole sound rfl,
      fun market => ⟨List.filter_sublist, listsSlots_ordersOn whole sound rfl market⟩,
      fun id => ⟨orderByClientId?_eq_some_iff whole sound rfl id,
        orderByClientId?_eq_none_iff whole sound rfl id⟩⟩
  · exact decode_congr same whole kind

/-- The orders' tables of an account with orders in slots 0 and 2, the second with a given side, and
nines for the sides of free slots. The clients' ids of the first three slots are 5, 6 and 5. -/
def tables (side : UInt8) : Bytes :=
  [3, freeSlot, 3] ++ List.replicate 61 freeSlot ++ ([1, 9, side] ++ List.replicate 61 9) ++
    (List.replicate 1024 0 ++ (ofU64 5 ++ ofU64 6 ++ ofU64 5 ++ List.replicate 600 0))

def front : Bytes := AccountKind.marginAccount.toByte :: List.replicate 2519 0

def sparse (side : UInt8) : Bytes := front ++ tables side

theorem length_front : front.length = 2520 := by
  simp only [front, List.length_cons, List.length_replicate]

theorem length_sparse (side : UInt8) : (sparse side).length = 4296 := by
  simp only [sparse, length_front, tables, List.length_append, List.length_cons,
    List.length_replicate, List.length_nil, length_ofU64]

theorem u8At_sparse (side : UInt8) (place : Nat) :
    u8At (sparse side) (2520 + place) = u8At (tables side) place := by
  rw [sparse, u8At_append_of_le (by rw [length_front]; omega), length_front,
    Nat.add_sub_cancel_left]

theorem used_sparse {side : UInt8} (either : side = 0 ∨ side = 2) (slot : Nat) :
    Used (sparse side) slot ↔ slot = 0 ∨ slot = 2 := by
  have markets : ∀ slot < 64, u8At (tables side) slot ≠ freeSlot ↔ slot = 0 ∨ slot = 2 := by
    rcases either with rfl | rfl <;> decide +kernel
  simp only [Used, orderMarket, u8At_sparse, orderSlots]
  constructor
  · rintro ⟨inside, used⟩
    exact (markets slot inside).mp used
  · intro used
    have inside : slot < 64 := by omega
    exact ⟨inside, (markets slot inside).mpr used⟩

theorem orderSide_sparse {side : UInt8} (either : side = 0 ∨ side = 2) :
    orderSide (sparse side) 0 = 1 ∧ orderSide (sparse side) 2 = side := by
  rcases either with rfl | rfl
  · exact ⟨(u8At_sparse 0 64).trans rfl, (u8At_sparse 0 66).trans rfl⟩
  · exact ⟨(u8At_sparse 2 64).trans rfl, (u8At_sparse 2 66).trans rfl⟩

theorem usedBy_sparse (id : UInt64) (slot : Nat) :
    UsedBy (sparse 0) id slot ↔ (slot = 0 ∨ slot = 2) ∧ ofU64 5 = ofU64 id := by
  have window {place : Nat} (five : slice (tables 0) place 8 = ofU64 5) :
      slice (sparse 0) (2520 + place) 8 = ofU64 5 := by
    rw [sparse, slice_append_of_le (by rw [length_front]; omega), length_front,
      Nat.add_sub_cancel_left, five]
  have first : slice (tables 0) 1152 8 = ofU64 5 := by decide +kernel
  have last : slice (tables 0) 1168 8 = ofU64 5 := by decide +kernel
  rw [UsedBy, used_sparse (.inl rfl)]
  refine and_congr_right fun here => ?_
  rcases here with rfl | rfl
  · rw [← window first]
  · rw [← window last]

theorem isSlack_sparse : IsSlack (sparse 0) 2585 := by
  refine ⟨1, by decide, (u8At_sparse 0 1).trans rfl, .inl ?_⟩
  simp [Within]

/-- Of two accounts the one with a third side in its last order is refused. The other has two orders,
of which a search finds the first, and the side of a free slot does not matter. -/
theorem decode_sparse :
    (∃ account, decode (sparse 0) = .ok account ∧
        decode ((sparse 0).set 2585 200) = .ok account ∧
        (∀ slot, (∃ order ∈ account.perpOrders, order.slot = slot) ↔ slot = 0 ∨ slot = 2) ∧
        account.ordersOn 255 = [] ∧ account.orderByClientId? 6 = none ∧
        ∃ order, account.orderByClientId? 5 = some order ∧ order.slot = 0 ∧ order.side = .ask) ∧
      decode (sparse 2) = .error (.unknownTag .side 2) := by
  have used (slot : Nat) := used_sparse (.inl rfl) slot
  have kind (side : UInt8) : u8At (sparse side) 0 = AccountKind.marginAccount.toByte :=
    u8At_ofU8_append _ _
  constructor
  · obtain ⟨-, accepts, lists, ignores⟩ := decode_lists_orders (length_sparse 0) (kind 0)
    obtain ⟨first, last⟩ := orderSide_sparse (.inl rfl)
    obtain ⟨account, decoded⟩ := accepts.mpr (by
      rintro slot ⟨here, side⟩
      rcases (used slot).mp here with rfl | rfl
      · simp [first] at side
      · simp [last] at side)
    obtain ⟨⟨ascending, listed, held⟩, markets, finds⟩ := lists account decoded
    refine ⟨account, decoded, ?_, fun slot => (listed slot).trans (used slot), ?_, ?_, ?_⟩
    · rw [ignores _ fun place slack => ?_, decoded]
      refine List.getElem?_set_ne ?_
      rintro rfl
      exact slack isSlack_sparse
    · refine List.eq_nil_iff_forall_not_mem.mpr fun order member => ?_
      obtain ⟨-, -, filtered, -⟩ := markets 255
      obtain ⟨⟨-, occupied⟩, free⟩ := (filtered order.slot).mp ⟨order, member, rfl⟩
      exact occupied (UInt8.toNat_inj.mp free)
    · refine (finds 6).2.mpr fun slot usedBy => ?_
      exact absurd ((usedBy_sparse 6 slot).mp usedBy).2 (by decide)
    · obtain ⟨order, member, slot⟩ := (listed 0).mpr ((used 0).mpr (.inl rfl))
      refine ⟨order, ((finds 5).1 order).mpr ⟨member, ?_, fun _ _ => ?_⟩, slot, ?_⟩
      · rw [slot]
        exact (usedBy_sparse 5 0).mpr ⟨.inl rfl, rfl⟩
      · exact slot ▸ Nat.zero_le _
      · have stored := (held order member).side_eq
        rw [slot, first] at stored
        cases side : order.side
        · simp [side, Side.toByte] at stored
        · rfl
  · obtain ⟨reports, -⟩ := decode_lists_orders (length_sparse 2) (kind 2)
    obtain ⟨first, last⟩ := orderSide_sparse (.inr rfl)
    refine (reports _).mpr ⟨2, ⟨⟨(used_sparse (.inr rfl) 2).mpr (.inr rfl), ?_⟩, ?_⟩, ?_⟩
    · rw [last]
      decide
    · rintro slot ⟨here, side⟩
      rcases (used_sparse (.inr rfl) slot).mp here with rfl | rfl
      · simp [first] at side
      · exact Nat.le_refl 2
    · rw [last]
      rfl

end MarginAccount
end PerpDex
