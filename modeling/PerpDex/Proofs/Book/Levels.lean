import Mathlib.Data.List.Dedup
import PerpDex.Proofs.Book.PriceTime

/-! The depth of a side. Its orders are ranked by price, so those of one price stand together, and
going over them once gives level after level: the distinct prices from the best one on, each with the
sum and the number of all orders at that price. The sums are exact as long as no sum on the way
leaves 64 bits; if one does, there is a fault instead of a depth. -/
namespace PerpDex

namespace Side

/-- The price `a` stands in front of `b`, or is the same. -/
def Ranks : Side → Int64 → Int64 → Prop
  | bid, a, b => b ≤ a
  | ask, a, b => a ≤ b

def Better : Side → Int64 → Int64 → Prop
  | bid, a, b => b < a
  | ask, a, b => a < b

theorem Ranks.antisymm {side : Side} {a b : Int64} (first : side.Ranks a b)
    (second : side.Ranks b a) : a = b := by
  cases side with
  | bid => exact Int64.le_antisymm second first
  | ask => exact Int64.le_antisymm first second

theorem Ranks.better {side : Side} {a b : Int64} (ranks : side.Ranks a b) (apart : a ≠ b) :
    side.Better a b := by
  cases side with
  | bid => exact Int64.lt_of_le_of_ne ranks apart.symm
  | ask => exact Int64.lt_of_le_of_ne ranks apart

end Side

namespace OrderBook

def atPrice (orders : List Leaf) (price : Int64) : List Leaf := orders.filter (·.price = price)

def prices (orders : List Leaf) : List Int64 := (orders.map (·.price)).dedup

def total : List Leaf → Int
  | [] => 0
  | l :: rest => l.quantity.toInt + total rest

def Fits (n : Int) : Prop := -(2 ^ 63) ≤ n ∧ n < 2 ^ 63

instance (n : Int) : Decidable (Fits n) := inferInstanceAs (Decidable (_ ∧ _))

/-- No sum on the way over the orders leaves 64 bits. -/
def SumsFit (orders : List Leaf) : Prop := ∀ first, first <+: orders → Fits (total first)

/-- No sum on the way to the first levels leaves 64 bits. -/
def DepthFits (orders : List Leaf) (levels : Nat) : Prop :=
  ∀ p ∈ (prices orders).take levels, SumsFit (atPrice orders p)

def sumUp (price : Int64) (orders : List Leaf) : PriceLevel :=
  ⟨price, Int64.ofInt (total orders), orders.length⟩

def levelOf (orders : List Leaf) (price : Int64) : PriceLevel := sumUp price (atPrice orders price)

@[simp] theorem total_singleton (l : Leaf) : total [l] = l.quantity.toInt := Int.add_zero _

@[simp] theorem total_append (a b : List Leaf) : total (a ++ b) = total a + total b := by
  induction a with
  | nil => exact (Int.zero_add _).symm
  | cons l rest ih => rw [List.cons_append, total, total, ih, Int.add_assoc]

theorem fits_toInt (n : Int64) : Fits n.toInt := ⟨n.le_toInt, n.toInt_lt⟩

theorem Fits.toInt_ofInt {n : Int} (fits : Fits n) : (Int64.ofInt n).toInt = n :=
  Int64.toInt_ofInt_of_le fits.1 fits.2

theorem checked_of_fits {n : Int} (fits : Fits n) : checked n = .ok (Int64.ofInt n) := if_pos fits

theorem checked_of_not_fits {n : Int} (beyond : ¬Fits n) : checked n = .error .overflow :=
  if_neg beyond

theorem SumsFit.total {orders : List Leaf} (fit : SumsFit orders) : Fits (total orders) :=
  fit orders List.prefix_rfl

theorem sumsFit_singleton (l : Leaf) : SumsFit [l] := by
  intro first begins
  rcases List.prefix_cons_iff.mp begins with rfl | ⟨more, rfl, none⟩
  · exact ⟨by decide, by decide⟩
  · rw [List.prefix_nil.mp none, total_singleton]
    exact fits_toInt l.quantity

theorem SumsFit.concat {orders : List Leaf} {l : Leaf} (fit : SumsFit orders)
    (next : Fits (OrderBook.total (orders ++ [l]))) : SumsFit (orders ++ [l]) := by
  intro first begins
  rcases List.prefix_concat_iff.mp begins with rfl | earlier
  · exact next
  · exact fit first earlier

theorem atPrice_of_same {run : List Leaf} {price : Int64} (same : ∀ l ∈ run, l.price = price) :
    atPrice run price = run :=
  List.filter_eq_self.mpr fun l member => decide_eq_true (same l member)

section Cut

variable {run rest : List Leaf} {price : Int64}

structure Cut (run rest : List Leaf) (price : Int64) : Prop where
  nonempty : run ≠ []
  same : ∀ l ∈ run, l.price = price
  others : ∀ l ∈ rest, l.price ≠ price

namespace Cut

theorem prices_append (cut : Cut run rest price) : prices (run ++ rest) = price :: prices rest := by
  have copies : run.map (·.price) = List.replicate run.length price :=
    List.eq_replicate_iff.mpr ⟨List.length_map .., by simpa using cut.same⟩
  have some : run.length ≠ 0 := by simpa using cut.nonempty
  have apart : (List.replicate run.length price).Disjoint (rest.map (·.price)) := by
    intro p member again
    obtain ⟨l, inside, rfl⟩ := List.mem_map.mp again
    exact cut.others l inside (List.eq_of_mem_replicate member)
  rw [prices, List.map_append, copies, apart.dedup_append, List.replicate_dedup some]
  rfl

theorem atPrice_self (cut : Cut run rest price) : atPrice (run ++ rest) price = run := by
  have none : atPrice rest price = [] :=
    List.filter_eq_nil_iff.mpr fun l member => by simpa using cut.others l member
  rw [atPrice, List.filter_append, ← atPrice, ← atPrice, atPrice_of_same cut.same, none,
    List.append_nil]

theorem atPrice_rest (cut : Cut run rest price) {p : Int64} (other : p ∈ prices rest) :
    atPrice (run ++ rest) p = atPrice rest p := by
  obtain ⟨l, inside, rfl⟩ := List.mem_map.mp (List.mem_dedup.mp other)
  have none : atPrice run l.price = [] := by
    refine List.filter_eq_nil_iff.mpr fun a member => ?_
    rw [cut.same a member, decide_eq_true_eq]
    exact (cut.others l inside).symm
  rw [atPrice, List.filter_append, ← atPrice, ← atPrice, none, List.nil_append]

theorem take_prices (cut : Cut run rest price) (levels : Nat) :
    (prices (run ++ rest)).take (levels + 1) = price :: (prices rest).take levels := by
  rw [cut.prices_append, List.take_succ_cons]

theorem depthFits_iff (cut : Cut run rest price) (levels : Nat) :
    DepthFits (run ++ rest) (levels + 1) ↔ SumsFit run ∧ DepthFits rest levels := by
  rw [DepthFits, cut.take_prices, List.forall_mem_cons, cut.atPrice_self]
  refine and_congr_right fun _ => forall₂_congr fun p member => ?_
  rw [cut.atPrice_rest (List.mem_of_mem_take member)]

/-- The level of the best price stands in front of those of the others. -/
theorem map_levelOf (cut : Cut run rest price) (levels : Nat) :
    ((prices (run ++ rest)).take (levels + 1)).map (levelOf (run ++ rest)) =
      sumUp price run :: ((prices rest).take levels).map (levelOf rest) := by
  rw [cut.take_prices, List.map_cons, levelOf, cut.atPrice_self]
  refine congrArg _ (List.map_congr_left fun p member => ?_)
  rw [levelOf, levelOf, cut.atPrice_rest (List.mem_of_mem_take member)]

end Cut

variable {side : Side}

/-- Behind an order at another price the first price does not come again. -/
theorem cut_of_ranked {leaf : Leaf}
    (ranked : (run ++ leaf :: rest).Pairwise fun a b => side.Ranks a.price b.price)
    (some : run ≠ []) (same : ∀ l ∈ run, l.price = price) (apart : leaf.price ≠ price) :
    Cut run (leaf :: rest) price := by
  refine ⟨some, same, fun l member again => ?_⟩
  rcases List.mem_cons.mp member with rfl | later
  · exact apart again
  · obtain ⟨first, more, rfl⟩ := List.exists_cons_of_ne_nil some
    obtain ⟨-, behind, across⟩ := List.pairwise_append.mp ranked
    have before := across first List.mem_cons_self leaf List.mem_cons_self
    have after := (List.pairwise_cons.mp behind).1 l later
    rw [same first List.mem_cons_self] at before
    rw [again] at after
    exact apart (after.antisymm before)

theorem exists_prices_cons {leaf : Leaf}
    (ranked : (leaf :: rest).Pairwise fun a b => side.Ranks a.price b.price) :
    ∃ more, prices (leaf :: rest) = leaf.price :: more := by
  induction rest generalizing leaf with
  | nil => exact ⟨[], by simp [prices]⟩
  | cons next rest ih =>
    by_cases again : next.price = leaf.price
    · obtain ⟨more, front⟩ := ih (List.pairwise_cons.mp ranked).2
      have repeated : leaf.price ∈ (next :: rest).map (·.price) := by simp [again]
      refine ⟨more, ?_⟩
      rw [prices, List.map_cons, List.dedup_cons_of_mem repeated, ← again, ← front, prices]
    · have cut : Cut [leaf] (next :: rest) leaf.price := cut_of_ranked ranked (by simp) (by simp) again
      exact ⟨_, cut.prices_append⟩

end Cut

section Step

variable {last : PriceLevel} {leaf : Leaf}

theorem depthFrom_same (same : leaf.price = last.price) (levels : Nat) (rest : List Leaf) :
    depthFrom last levels (leaf :: rest) =
      (checked (last.quantity.toInt + leaf.quantity.toInt)).bind fun quantity =>
        depthFrom { last with quantity, orders := last.orders + 1 } levels rest := by
  rw [depthFrom.eq_def]
  exact if_pos same

theorem depthFrom_full (apart : leaf.price ≠ last.price) (rest : List Leaf) :
    depthFrom last 0 (leaf :: rest) = .ok [last] := by
  rw [depthFrom.eq_def]
  exact if_neg apart

theorem depthFrom_next (apart : leaf.price ≠ last.price) (levels : Nat) (rest : List Leaf) :
    depthFrom last (levels + 1) (leaf :: rest) =
      (depthFrom ⟨leaf.price, leaf.quantity, 1⟩ levels rest).map (last :: ·) := by
  rw [depthFrom.eq_def]
  refine (if_neg apart).trans ?_
  change (depthFrom _ levels rest).bind _ = _
  cases depthFrom ⟨leaf.price, leaf.quantity, 1⟩ levels rest <;> rfl

end Step

/-- One more order at the price of some. -/
theorem depthFrom_sumUp {seen : List Leaf} (leaf : Leaf) (fit : SumsFit seen) (levels : Nat)
    (rest : List Leaf) :
    depthFrom (sumUp leaf.price seen) levels (leaf :: rest) =
      if Fits (total (seen ++ [leaf])) then
        depthFrom (sumUp leaf.price (seen ++ [leaf])) levels rest
      else .error .overflow := by
  have sum : (sumUp leaf.price seen).quantity.toInt + leaf.quantity.toInt =
      total (seen ++ [leaf]) := by
    rw [sumUp, fit.total.toInt_ofInt, total_append, total_singleton]
  have next : sumUp leaf.price (seen ++ [leaf]) =
      ⟨leaf.price, Int64.ofInt (total (seen ++ [leaf])), seen.length + 1⟩ := by
    rw [sumUp, List.length_append, List.length_singleton]
  rw [depthFrom_same rfl, sum, next]
  split
  · next fits =>
    rw [checked_of_fits fits]
    rfl
  · next beyond =>
    rw [checked_of_not_fits beyond]
    rfl

theorem sumUp_singleton (l : Leaf) : sumUp l.price [l] = ⟨l.price, l.quantity, 1⟩ := by
  rw [sumUp, total_singleton, Int64.ofInt_toInt]
  rfl

/-- The answer for a number of levels: those of the first prices, or a fault if at one of these
prices a sum on the way leaves 64 bits. -/
inductive Answers (orders : List Leaf) (levels : Nat) : Except Fault (List PriceLevel) → Prop where
  | listed (fit : DepthFits orders levels) :
      Answers orders levels (.ok (((prices orders).take levels).map (levelOf orders)))
  | overflow (beyond : ¬DepthFits orders levels) : Answers orders levels (.error .overflow)

theorem Answers.next {run rest : List Leaf} {price : Int64} {levels : Nat}
    {answer : Except Fault (List PriceLevel)} (cut : Cut run rest price) (fit : SumsFit run)
    (answers : Answers rest levels answer) :
    Answers (run ++ rest) (levels + 1) (answer.map (sumUp price run :: ·)) := by
  cases answers with
  | listed fits =>
    rw [Except.map, ← cut.map_levelOf]
    exact .listed ((cut.depthFits_iff levels).mpr ⟨fit, fits⟩)
  | overflow beyond => exact .overflow fun fits => beyond ((cut.depthFits_iff levels).mp fits).2

theorem Answers.none {orders : List Leaf} {levels : Nat}
    (nothing : (prices orders).take levels = []) : Answers orders levels (.ok []) := by
  have listed : Answers orders levels (.ok (((prices orders).take levels).map (levelOf orders))) :=
    .listed (by rw [DepthFits, nothing]; nofun)
  rwa [nothing] at listed

/-- A sum that leaves 64 bits at the best price. -/
theorem Answers.beyond {side : Side} {seen rest : List Leaf} {leaf : Leaf}
    (ranked : (seen ++ leaf :: rest).Pairwise fun a b => side.Ranks a.price b.price)
    (same : ∀ l ∈ seen, l.price = leaf.price) (beyond : ¬Fits (total (seen ++ [leaf])))
    (levels : Nat) : Answers (seen ++ leaf :: rest) (levels + 1) (.error .overflow) := by
  have front : ∃ more, prices (seen ++ leaf :: rest) = leaf.price :: more := by
    cases seen with
    | nil => exact exists_prices_cons ranked
    | cons first seen =>
      rw [List.cons_append] at ranked ⊢
      rw [← same first List.mem_cons_self]
      exact exists_prices_cons ranked
  obtain ⟨more, front⟩ := front
  have begins : seen ++ [leaf] <+: atPrice (seen ++ leaf :: rest) leaf.price := by
    refine ⟨atPrice rest leaf.price, ?_⟩
    have kept : atPrice seen leaf.price = seen := atPrice_of_same same
    rw [atPrice] at kept
    simp [atPrice, kept]
  have wanted : leaf.price ∈ (prices (seen ++ leaf :: rest)).take (levels + 1) := by
    rw [front, List.take_succ_cons]
    exact List.mem_cons_self
  exact .overflow fun fits => beyond (fits leaf.price wanted _ begins)

/-- The orders `rest` behind some at one price. -/
theorem depthFrom_answers {side : Side} {seen rest : List Leaf} {price : Int64}
    (ranked : (seen ++ rest).Pairwise fun a b => side.Ranks a.price b.price) (some : seen ≠ [])
    (same : ∀ l ∈ seen, l.price = price) (fit : SumsFit seen) (levels : Nat) :
    Answers (seen ++ rest) (levels + 1) (depthFrom (sumUp price seen) levels rest) := by
  induction rest generalizing seen price levels with
  | nil =>
    have cut : Cut seen [] price := ⟨some, same, nofun⟩
    exact .next cut fit (.none List.take_nil)
  | cons leaf rest ih =>
    by_cases further : leaf.price = price
    · subst further
      rw [depthFrom_sumUp leaf fit]
      split
      · next fits =>
        have regroup : seen ++ leaf :: rest = seen ++ [leaf] ++ rest := by simp
        have same' : ∀ l ∈ seen ++ [leaf], l.price = leaf.price := by
          intro l member
          rcases List.mem_append.mp member with earlier | last
          · exact same l earlier
          · rw [List.mem_singleton.mp last]
        rw [regroup] at ranked ⊢
        exact ih ranked (by simp) same' (fit.concat fits) levels
      · next beyond => exact .beyond ranked same beyond levels
    · have cut := cut_of_ranked ranked some same further
      cases levels with
      | zero =>
        rw [depthFrom_full further]
        exact .next cut fit (.none (List.take_zero ..))
      | succ levels =>
        rw [depthFrom_next further, ← sumUp_singleton]
        have behind := (List.pairwise_append.mp ranked).2.1
        have others : Answers (leaf :: rest) (levels + 1)
            (depthFrom (sumUp leaf.price [leaf]) levels rest) :=
          ih behind (by simp) (by simp) (sumsFit_singleton leaf) levels
        exact .next cut fit others

/-- A depth for which there is room. -/
theorem depth_answers {book : OrderBook} {side : Side} {levels : UInt64}
    (ranked : (book.orders side).Pairwise fun a b => side.Ranks a.price b.price)
    (room : levels.toNat * levelSize < 2 ^ 63) :
    Answers (book.orders side) levels.toNat (book.depth side levels) := by
  rw [depth, if_neg (Nat.not_le.mpr room)]
  split
  · next wanted leaf rest count orders =>
    rw [orders, ← List.singleton_append] at ranked ⊢
    rw [count, ← sumUp_singleton]
    exact depthFrom_answers ranked (by simp) (by simp) (sumsFit_singleton leaf) wanted
  · next other =>
    refine .none ?_
    cases count : levels.toNat with
    | zero => rfl
    | succ wanted =>
      cases orders : book.orders side with
      | nil => rfl
      | cons leaf rest => exact absurd orders (other wanted leaf rest count)

theorem depth_of_no_room (book : OrderBook) (side : Side) {levels : UInt64}
    (large : 2 ^ 63 ≤ levels.toNat * levelSize) :
    book.depth side levels = .error .capacityOverflow :=
  if_pos large

/-- The orders of a book are ranked by price on each side. -/
theorem ranked_of_ofSides {bids asks : BookSide} {book : OrderBook}
    (built : ofSides bids asks = .ok book) (side : Side) :
    (book.orders side).Pairwise fun a b => side.Ranks a.price b.price := by
  obtain ⟨-, -, bidOrders, askOrders, -, -, rfl⟩ := ofSides_eq_ok_iff.mp built
  cases side with
  | bid => exact (sortedByPrice_bids bidOrders).sorted
  | ask => exact (sortedByPrice_asks askOrders).sorted

/-- The first `levels` levels of some orders, the best price first. -/
structure ListsLevels (side : Side) (orders : List Leaf) (levels : Nat)
    (listed : List PriceLevel) : Prop where
  prices_eq : listed.map (·.price) = (prices orders).take levels
  length_eq : listed.length = min levels (prices orders).length
  best_first : listed.Pairwise fun a b => side.Better a.price b.price
  unlisted_worse : ∀ l ∈ orders, l.price ∉ listed.map (·.price) →
    ∀ level ∈ listed, side.Better level.price l.price
  quantity_eq : ∀ level ∈ listed, level.quantity.toInt = total (atPrice orders level.price)
  orders_eq : ∀ level ∈ listed, level.orders = (atPrice orders level.price).length

/-- The prices of ranked orders are ranked. -/
theorem pairwise_prices {side : Side} {orders : List Leaf}
    (ranked : orders.Pairwise fun a b => side.Ranks a.price b.price) :
    (prices orders).Pairwise side.Better := by
  have along : (prices orders).Pairwise side.Ranks :=
    (List.pairwise_map.mpr ranked).sublist (List.dedup_sublist _)
  exact (along.and (List.nodup_dedup _)).imp fun ⟨ranks, apart⟩ => ranks.better apart

theorem Answers.listsLevels {side : Side} {orders : List Leaf} {levels : Nat}
    {listed : List PriceLevel} (ranked : orders.Pairwise fun a b => side.Ranks a.price b.price)
    (answers : Answers orders levels (.ok listed)) : ListsLevels side orders levels listed := by
  have better := pairwise_prices ranked
  cases answers with
  | listed fit =>
    have shown : (((prices orders).take levels).map (levelOf orders)).map (·.price) =
        (prices orders).take levels := by
      rw [List.map_map]
      exact List.map_id' _
    refine ⟨shown, by simp, ?_, ?_, ?_, ?_⟩
    · exact List.pairwise_map.mpr (better.sublist (List.take_sublist ..))
    · intro l member unlisted level inside
      rw [shown] at unlisted
      obtain ⟨p, wanted, rfl⟩ := List.mem_map.mp inside
      have occurs : l.price ∈ (prices orders).take levels ++ (prices orders).drop levels := by
        rw [List.take_append_drop]
        exact List.mem_dedup.mpr (List.mem_map_of_mem member)
      rw [← List.take_append_drop levels (prices orders), List.pairwise_append] at better
      exact better.2.2 p wanted _ ((List.mem_append.mp occurs).resolve_left unlisted)
    · intro level inside
      obtain ⟨p, wanted, rfl⟩ := List.mem_map.mp inside
      exact (fit p wanted).total.toInt_ofInt
    · intro level inside
      obtain ⟨p, -, rfl⟩ := List.mem_map.mp inside
      rfl

/-- Fewer levels of the same orders. -/
theorem Answers.exists_prefix {orders : List Leaf} {levels fewer : Nat} {listed : List PriceLevel}
    {answer : Except Fault (List PriceLevel)} (le : fewer ≤ levels)
    (more : Answers orders levels (.ok listed)) (answers : Answers orders fewer answer) :
    ∃ front, answer = .ok front ∧ front <+: listed := by
  have begins : (prices orders).take fewer <+: (prices orders).take levels :=
    List.take_prefix_take_left le
  cases more with
  | listed fit =>
    cases answers with
    | listed => exact ⟨_, rfl, begins.map _⟩
    | overflow beyond => exact absurd (fun p wanted => fit p (begins.subset wanted)) beyond

/-- Orders that are walked in the order of their prices stay in it. -/
theorem ofSides_of_ranked {bids asks : BookSide} {bidOrders askOrders : List Leaf}
    (bidSide : bids.side = .bid) (askSide : asks.side = .ask)
    (bidWalk : bids.walk false = ⟨bidOrders, none⟩) (askWalk : asks.walk true = ⟨askOrders, none⟩)
    (bidsRanked : bidOrders.Pairwise fun a b => b.price ≤ a.price)
    (asksRanked : askOrders.Pairwise fun a b => a.price ≤ b.price) :
    ofSides bids asks = .ok ⟨bidOrders, askOrders⟩ := by
  rw [ofSides_of_walks bidSide askSide bidWalk askWalk,
    List.mergeSort_of_pairwise (bidsRanked.imp decide_eq_true),
    List.mergeSort_of_pairwise (asksRanked.imp decide_eq_true)]

/-- If there is a depth, it is the levels of the best prices, as many as are wanted and as there are
prices, and each level counts and adds up all orders at its price. Fewer levels of it are the first of
more. -/
theorem depth_lists_levels {bids asks : BookSide} {book : OrderBook}
    (built : ofSides bids asks = .ok book) (side : Side) {levels : UInt64}
    {listed : List PriceLevel} (returned : book.depth side levels = .ok listed) :
    ListsLevels side (book.orders side) levels.toNat listed ∧
      ∀ fewer ≤ levels, ∃ front, book.depth side fewer = .ok front ∧ front <+: listed := by
  have ranked := ranked_of_ofSides built side
  have room : levels.toNat * levelSize < 2 ^ 63 := by
    by_contra large
    rw [depth_of_no_room book side (Nat.not_lt.mp large)] at returned
    cases returned
  have answers := depth_answers ranked room
  rw [returned] at answers
  refine ⟨answers.listsLevels ranked, fun fewer le => ?_⟩
  have le : fewer.toNat ≤ levels.toNat := UInt64.le_iff_toNat_le.mp le
  have room' : fewer.toNat * levelSize < 2 ^ 63 :=
    Nat.lt_of_le_of_lt (Nat.mul_le_mul_right _ le) room
  exact answers.exists_prefix le (depth_answers ranked room')

open BookSide

def twoPrices : List Leaf :=
  [{ orderAt 5 1 with quantity := 3 }, { orderAt 5 2 with quantity := -4 },
    { orderAt 9 3 with quantity := 2 }]

def twoLevels : BookSide where
  header := Header.new .asks 0 true
  side := .ask
  bumpIndex := 5
  freeListLength := 0
  freeListHead := 0
  root := 0
  leafCount := 3
  nodes := [.inner (branchAt 60 5 1 1 2), .inner (branchAt 126 5 1 3 4),
    .leaf { orderAt 9 3 with quantity := 2 }, .leaf { orderAt 5 1 with quantity := 3 },
    .leaf { orderAt 5 2 with quantity := -4 }]

theorem ofSides_twoLevels : ofSides noBids twoLevels = .ok ⟨[], twoPrices⟩ := by
  have nothing : noBids.walk false = ⟨[], none⟩ := walk_of_isEmpty rfl false
  have walk : twoLevels.walk true = ⟨twoPrices, none⟩ := by decide +kernel
  exact ofSides_of_ranked rfl rfl nothing walk .nil (by decide +kernel)

/-- The asks at price 5 make one level, whose sum is negative. -/
theorem depth_of_twoLevels :
    ofSides noBids twoLevels = .ok ⟨[], twoPrices⟩ ∧
      depth ⟨[], twoPrices⟩ .ask 2 = .ok [⟨5, -1, 2⟩, ⟨9, 2, 1⟩] ∧
      total (atPrice twoPrices 5) = -1 ∧ (atPrice twoPrices 5).length = 2 ∧
      ∃ front, depth ⟨[], twoPrices⟩ .ask 1 = .ok front ∧ front <+: [⟨5, -1, 2⟩, ⟨9, 2, 1⟩] := by
  have returned : depth ⟨[], twoPrices⟩ .ask 2 = .ok [⟨5, -1, 2⟩, ⟨9, 2, 1⟩] := by decide +kernel
  obtain ⟨lists, fewer⟩ := depth_lists_levels ofSides_twoLevels .ask returned
  have first : (⟨5, -1, 2⟩ : PriceLevel) ∈ [⟨5, -1, 2⟩, ⟨9, 2, 1⟩] := List.mem_cons_self
  exact ⟨ofSides_twoLevels, returned, (lists.quantity_eq _ first).symm,
    (lists.orders_eq _ first).symm, fewer 1 (by decide)⟩

end OrderBook
end PerpDex
