import PerpDex.Proofs.Book.Levels
import PerpDex.Proofs.Book.Cursor
import PerpDex.Proofs.Book.SideBytes

/-! When a book can say its spread and its depth. Prices and quantities are whatever the accounts
hold, and neither the difference of the best prices nor the sums of a level are looked at beforehand,
so some books fault: exactly those where a result or a sum on the way to it leaves 64 bits. A depth
faults also where more levels are wanted than there can be room for. A book with prices below
`2 ^ 63` and quantities below `2 ^ 53` has a spread and every depth that there is room for. -/
namespace PerpDex.OrderBook

variable {book : OrderBook}

def SpreadFits (book : OrderBook) : Prop :=
  ∀ ask ∈ book.topAsk, ∀ bid ∈ book.topBid, Fits (ask.price.toInt - bid.price.toInt)

theorem exists_spread (fits : book.SpreadFits) : ∃ spread, book.spread = .ok spread := by
  unfold spread
  unfold SpreadFits at fits
  cases ask : book.topAsk with
  | none => exact ⟨_, rfl⟩
  | some a =>
    cases bid : book.topBid with
    | none => exact ⟨_, rfl⟩
    | some b =>
      have within : Fits (a.price.toInt - b.price.toInt) := fits a ask b bid
      refine ⟨some (Int64.ofInt (a.price.toInt - b.price.toInt)), ?_⟩
      simp only [checked_of_fits within]
      rfl

theorem spread_of_not_fits (beyond : ¬book.SpreadFits) : book.spread = .error .overflow := by
  simp only [SpreadFits, not_forall] at beyond
  obtain ⟨ask, isAsk, bid, isBid, beyond⟩ := beyond
  simp only [spread, Option.mem_def.mp isAsk, Option.mem_def.mp isBid, checked_of_not_fits beyond]
  rfl

theorem Answers.exists_of_fits {orders : List Leaf} {levels : Nat}
    {answer : Except Fault (List PriceLevel)} (answers : Answers orders levels answer)
    (fits : DepthFits orders levels) : ∃ listed, answer = .ok listed := by
  cases answers with
  | listed => exact ⟨_, rfl⟩
  | overflow beyond => exact absurd fits beyond

theorem Answers.eq_of_not_fits {orders : List Leaf} {levels : Nat}
    {answer : Except Fault (List PriceLevel)} (answers : Answers orders levels answer)
    (beyond : ¬DepthFits orders levels) : answer = .error .overflow := by
  cases answers with
  | listed fit => exact absurd fit beyond
  | overflow => rfl

/-- The spread and the depths that a book gives, and its faults in all other cases. -/
structure Faults (book : OrderBook) : Prop where
  spread_given : book.SpreadFits → ∃ spread, book.spread = .ok spread
  spread_beyond : ¬book.SpreadFits → book.spread = .error .overflow
  depth_given : ∀ side (levels : UInt64), levels.toNat * levelSize < 2 ^ 63 →
    DepthFits (book.orders side) levels.toNat → ∃ listed, book.depth side levels = .ok listed
  depth_beyond : ∀ side (levels : UInt64), levels.toNat * levelSize < 2 ^ 63 →
    ¬DepthFits (book.orders side) levels.toNat → book.depth side levels = .error .overflow
  depth_roomless : ∀ side (levels : UInt64), 2 ^ 63 ≤ levels.toNat * levelSize →
    book.depth side levels = .error .capacityOverflow

theorem natAbs_total_le {orders : List Leaf} {m : Nat}
    (small : ∀ l ∈ orders, l.quantity.toInt.natAbs ≤ m) :
    (total orders).natAbs ≤ orders.length * m := by
  induction orders with
  | nil => exact Nat.zero_le _
  | cons l rest ih =>
    obtain ⟨first, others⟩ := List.forall_mem_cons.mp small
    have later := ih others
    rw [total, List.length_cons, Nat.succ_mul]
    omega

/-- Orders that are at most as many as an account has slots, and small ones. -/
theorem depthFits_of_small {orders : List Leaf} (few : orders.length ≤ BookSide.capacity)
    (small : ∀ l ∈ orders, l.quantity.toInt.natAbs < 2 ^ 53) (levels : Nat) :
    DepthFits orders levels := by
  intro p _ first begins
  have part : first.Sublist orders := begins.sublist.trans List.filter_sublist
  have sum : (total first).natAbs ≤ first.length * (2 ^ 53 - 1) :=
    natAbs_total_le fun l member => Nat.le_sub_one_of_lt (small l (part.subset member))
  have count : first.length ≤ BookSide.capacity := part.length_le.trans few
  have bound : first.length * (2 ^ 53 - 1) ≤ 1024 * (2 ^ 53 - 1) := Nat.mul_le_mul_right _ count
  constructor <;> omega

theorem spreadFits_of_nonneg (asks : ∀ ask ∈ book.topAsk, 0 ≤ ask.price.toInt)
    (bids : ∀ bid ∈ book.topBid, 0 ≤ bid.price.toInt) : book.SpreadFits := by
  intro ask isAsk bid isBid
  have := asks ask isAsk
  have := bids bid isBid
  have := ask.price.toInt_lt
  have := bid.price.toInt_lt
  constructor <;> omega

/-- A book of two accounts has no more orders on a side than the account has slots. -/
theorem length_orders_le {bids asks : BookSide} (bidSlots : bids.nodes.length = BookSide.capacity)
    (askSlots : asks.nodes.length = BookSide.capacity) (built : ofSides bids asks = .ok book)
    (side : Side) : (book.orders side).length ≤ BookSide.capacity := by
  have walked (book : BookSide) (ascending : Bool) :
      (book.walk ascending).leaves.length ≤ book.nodes.length :=
    BookSide.length_leaves_walkFrom_le ..
  obtain ⟨-, -, bidOrders, askOrders, bidWalk, askWalk, rfl⟩ := ofSides_eq_ok_iff.mp built
  have bidsMet := walked bids false
  have asksMet := walked asks true
  rw [bidWalk, bidSlots] at bidsMet
  rw [askWalk, askSlots] at asksMet
  cases side with
  | bid => simpa [orders] using bidsMet
  | ask => simpa [orders] using asksMet

theorem nodes_of_decode {data : Bytes} {side : BookSide} (read : BookSide.decode data = .ok side) :
    side.nodes.length = BookSide.capacity := by
  obtain ⟨-, -, -, slots, -⟩ := (BookSide.decode_eq_ok_iff data side).mp read
  exact slots

/-- A book of two accounts gives its spread and the depth of a side exactly if the results and all
sums on the way to them are within 64 bits and there can be room for the levels. So it does where the
best prices are not negative, or the quantities are small. -/
theorem faults_of_accounts {bidData askData : Bytes} {bids asks : BookSide}
    (bidsRead : BookSide.decode bidData = .ok bids) (asksRead : BookSide.decode askData = .ok asks)
    (built : ofSides bids asks = .ok book) :
    book.Faults ∧
      ((∀ ask ∈ book.topAsk, 0 ≤ ask.price.toInt) → (∀ bid ∈ book.topBid, 0 ≤ bid.price.toInt) →
        ∃ spread, book.spread = .ok spread) ∧
      ∀ side, (∀ l ∈ book.orders side, l.quantity.toInt.natAbs < 2 ^ 53) →
        ∀ levels : UInt64, levels.toNat * levelSize < 2 ^ 63 →
          ∃ listed, book.depth side levels = .ok listed := by
  have ranked := ranked_of_ofSides built
  have few := length_orders_le (nodes_of_decode bidsRead) (nodes_of_decode asksRead) built
  have depth_given (side : Side) (levels : UInt64) (room : levels.toNat * levelSize < 2 ^ 63)
      (fits : DepthFits (book.orders side) levels.toNat) :
      ∃ listed, book.depth side levels = .ok listed :=
    (depth_answers (ranked side) room).exists_of_fits fits
  refine ⟨⟨exists_spread, spread_of_not_fits, depth_given, ?_, ?_⟩, ?_, ?_⟩
  · exact fun side levels room => (depth_answers (ranked side) room).eq_of_not_fits
  · exact fun side levels => depth_of_no_room book side
  · exact fun asks bids => exists_spread (spreadFits_of_nonneg asks bids)
  · intro side small levels room
    exact depth_given side levels room (depthFits_of_small (few side) small _)

open BookSide

/-- Two bids at the least price there is, whose quantities add up to `2 ^ 63`. -/
def extremeBids : BookSide where
  header := Header.new .bids 0 true
  side := .bid
  bumpIndex := 3
  freeListLength := 0
  freeListHead := 0
  root := 0
  leafCount := 2
  nodes := [.inner (branchAt 126 0x8000000000000000 1 1 2),
    .leaf { orderAt 0x8000000000000000 1 with quantity := 0x7FFFFFFFFFFFFFFF },
    .leaf { orderAt 0x8000000000000000 2 with quantity := 1 }] ++
    List.replicate 1021 .uninitialized

def extremeAsks : BookSide where
  header := Header.new .asks 0 true
  side := .ask
  bumpIndex := 1
  freeListLength := 0
  freeListHead := 0
  root := 0
  leafCount := 1
  nodes := .leaf { orderAt 0x7FFFFFFFFFFFFFFF 3 with quantity := 5 } ::
    List.replicate 1023 .uninitialized

def extremes : OrderBook where
  bids := [{ orderAt 0x8000000000000000 2 with quantity := 1 },
    { orderAt 0x8000000000000000 1 with quantity := 0x7FFFFFFFFFFFFFFF }]
  asks := [{ orderAt 0x7FFFFFFFFFFFFFFF 3 with quantity := 5 }]

theorem decode_extremeBids : decode extremeBids.encode = .ok extremeBids :=
  decode_encode (by decide +kernel) rfl

theorem decode_extremeAsks : decode extremeAsks.encode = .ok extremeAsks :=
  decode_encode (by decide +kernel) rfl

theorem ofSides_extremes : ofSides extremeBids extremeAsks = .ok extremes := by
  have bidWalk : extremeBids.walk false = ⟨extremes.bids, none⟩ := by decide +kernel
  have askWalk : extremeAsks.walk true = ⟨extremes.asks, none⟩ := by decide +kernel
  exact ofSides_of_ranked rfl rfl bidWalk askWalk (by decide +kernel) (by decide +kernel)

/-- The asks alone have a depth, and the bids have one of no levels. -/
theorem faults_of_extremes :
    decode extremeBids.encode = .ok extremeBids ∧ decode extremeAsks.encode = .ok extremeAsks ∧
      ofSides extremeBids extremeAsks = .ok extremes ∧
      (∃ listed, extremes.depth .ask 3 = .ok listed) ∧ extremes.depth .bid 1 = .error .overflow := by
  obtain ⟨faults, -, small⟩ :=
    faults_of_accounts decode_extremeBids decode_extremeAsks ofSides_extremes
  refine ⟨decode_extremeBids, decode_extremeAsks, ofSides_extremes, ?_, ?_⟩
  · exact small .ask (by decide +kernel) 3 (by decide)
  · refine faults.depth_beyond .bid 1 (by decide) fun fits => ?_
    have sum := fits (-0x8000000000000000) (by decide +kernel)
    exact absurd sum.total (by decide +kernel)

/-- Two accounts of which neither the spread nor the first level of the bids can be given, nor as many
levels of the asks as there are numbers. -/
theorem views_fault :
    decode extremeBids.encode = .ok extremeBids ∧ decode extremeAsks.encode = .ok extremeAsks ∧
      ofSides extremeBids extremeAsks = .ok extremes ∧
      extremes.spread = .error .overflow ∧ extremes.depth .bid 1 = .error .overflow ∧
      extremes.depth .ask (-1) = .error .capacityOverflow :=
  ⟨decode_extremeBids, decode_extremeAsks, ofSides_extremes, by decide +kernel, by decide +kernel,
    by decide +kernel⟩

end PerpDex.OrderBook
