import PerpDex.Proofs.Book.Extremes
import PerpDex.Proofs.Book.Ranking
import PerpDex.Book.OrderBook

/-! Two views of a side with the best price first. The tree ranks prices as its keys hold them,
without a sign; the two-sided book sorts what it walks by the signed price, for which a price from
`2 ^ 63` on is negative. So the book has those prices at the other end than the tree, and the views
agree exactly for sides on which not both kinds of prices occur. -/
namespace PerpDex

section Parts

variable {α : Type} {le : α → α → Bool} {p : α → Bool} {list : List α}

/-- The elements with a property come first where none of them stands behind one without. -/
theorem filter_append_filter_not (apart : list.Pairwise fun a b => p b = true → p a = true) :
    list.filter p ++ list.filter (!p ·) = list := by
  induction apart with
  | nil => rfl
  | @cons head rest before _ ih =>
    by_cases first : p head = true
    · simp [first, ih]
    · have none : ∀ a ∈ rest, p a = false := fun a member =>
        Bool.eq_false_iff.mpr fun holds => first (before a member holds)
      have kept : ∀ a ∈ rest, (!p a) = true := fun a member => by simp [none a member]
      rw [List.filter_cons_of_neg first, List.filter_cons_of_pos (by simpa using first),
        List.filter_eq_nil_iff.mpr fun a member => by simp [none a member],
        List.filter_eq_self.mpr kept, List.nil_append]

/-- Sorting a list whose two parts are sorted already puts the part that is less in front. -/
theorem mergeSort_of_parts (trans : ∀ a b c, le a b = true → le b c = true → le a c = true)
    (total : ∀ a b, (le a b || le b a) = true)
    (front : (list.filter p).Pairwise fun a b => le a b = true)
    (back : (list.filter (!p ·)).Pairwise fun a b => le a b = true)
    (apart : ∀ a b, le a b = true → p b = true → p a = true) :
    list.mergeSort le = list.filter p ++ list.filter (!p ·) := by
  have sorted := List.pairwise_mergeSort trans total list
  rw [← filter_mergeSort trans total front, ← filter_mergeSort trans total back,
    filter_append_filter_not (sorted.imp fun {a b} => apart a b)]

/-- Elements with the property and elements without it. -/
def Mixed (p : α → Bool) (list : List α) : Prop :=
  (∃ a ∈ list, p a = true) ∧ ∃ a ∈ list, p a = false

theorem swap_of_not_mixed (swapped : list.filter (!p ·) ++ list.filter p = list)
    (unmixed : ¬Mixed p list) : list.filter p ++ list.filter (!p ·) = list := by
  by_cases occurs : ∃ a ∈ list, p a = true
  · have none : list.filter (!p ·) = [] := by
      refine List.filter_eq_nil_iff.mpr fun a member without => unmixed ⟨occurs, a, member, ?_⟩
      simpa using without
    rwa [none, List.append_nil, ← List.nil_append (list.filter p), ← none]
  · have none : list.filter p = [] :=
      List.filter_eq_nil_iff.mpr fun a member holds => occurs ⟨a, member, holds⟩
    rwa [none, List.nil_append, ← List.append_nil (list.filter _), ← none]

theorem head?_swap_ne_of_mixed (swapped : list.filter (!p ·) ++ list.filter p = list)
    (mixed : Mixed p list) : (list.filter p ++ list.filter (!p ·)).head? ≠ list.head? := by
  obtain ⟨⟨a, inA, holds⟩, b, inB, fails⟩ := mixed
  have front : list.filter p ≠ [] := List.ne_nil_of_mem (List.mem_filter.mpr ⟨inA, holds⟩)
  have back : list.filter (!p ·) ≠ [] :=
    List.ne_nil_of_mem (List.mem_filter.mpr ⟨inB, by simpa using fails⟩)
  obtain ⟨first, more, frontEq⟩ := List.exists_cons_of_ne_nil front
  obtain ⟨last, others, backEq⟩ := List.exists_cons_of_ne_nil back
  have inFront : first ∈ list.filter p := frontEq ▸ List.mem_cons_self
  have inBack : last ∈ list.filter (!p ·) := backEq ▸ List.mem_cons_self
  have head : list.head? = some last := by
    rw [← swapped, backEq]
    rfl
  intro same
  rw [head, frontEq] at same
  obtain rfl : first = last := Option.some.inj same
  have without := (List.mem_filter.mp inBack).2
  rw [(List.mem_filter.mp inFront).2] at without
  cases without

theorem mixed_not (p : α → Bool) (list : List α) : Mixed (!p ·) list ↔ Mixed p list := by
  simp only [Mixed, Bool.not_eq_true', Bool.not_eq_false', and_comm]

/-- What is shown of a ranked list after sorting: one kind of elements in front of the other. -/
structure Resorted (front : α → Bool) (ranked shown : List α) : Prop where
  shown_eq : shown = ranked.filter front ++ ranked.filter (!front ·)
  agrees_iff : shown = ranked ↔ ¬Mixed front ranked
  head_agrees_iff : shown.head? = ranked.head? ↔ ¬Mixed front ranked

/-- Sorting by another order that ranks elements of one kind alike, but has the kinds the other way
round. -/
theorem resorted_of_ranked {rank : α → α → Prop}
    (trans : ∀ a b c, le a b = true → le b c = true → le a c = true)
    (total : ∀ a b, (le a b || le b a) = true) (ranked : list.Pairwise rank)
    (alike : ∀ a b, rank a b → p a = p b → le a b = true)
    (behind : ∀ a b, rank a b → p a = true → p b = true)
    (apart : ∀ a b, le a b = true → p b = true → p a = true) :
    Resorted p list (list.mergeSort le) := by
  have front : (list.filter p).Pairwise fun a b => le a b = true := by
    refine (ranked.filter p).imp_of_mem fun {a b} inA inB less => alike a b less ?_
    rw [(List.mem_filter.mp inA).2, (List.mem_filter.mp inB).2]
  have back : (list.filter (!p ·)).Pairwise fun a b => le a b = true := by
    refine (ranked.filter (!p ·)).imp_of_mem fun {a b} inA inB less => alike a b less ?_
    exact Bool.not_inj ((List.mem_filter.mp inA).2.trans (List.mem_filter.mp inB).2.symm)
  -- `behind` says that in the ranked list the kind in front after sorting stands behind
  have swapped : list.filter (!p ·) ++ list.filter p = list := by
    have parts : list.filter (!p ·) ++ list.filter (!!p ·) = list := by
      refine filter_append_filter_not (ranked.imp fun {a b} less without => ?_)
      have least := behind a b less
      cases holds : p a <;> simp_all
    simpa only [Bool.not_not] using parts
  have shown := mergeSort_of_parts trans total front back apart
  refine ⟨shown, ⟨fun same mixed => ?_, fun unmixed => ?_⟩, ⟨fun same mixed => ?_, fun unmixed => ?_⟩⟩
  · rw [shown] at same
    exact head?_swap_ne_of_mixed swapped mixed (congrArg List.head? same)
  · rw [shown, swap_of_not_mixed swapped unmixed]
  · rw [shown] at same
    exact head?_swap_ne_of_mixed swapped mixed same
  · rw [shown, swap_of_not_mixed swapped unmixed]

end Parts

namespace Leaf

def isUpper (l : Leaf) : Bool := 2 ^ 63 ≤ l.key.price.toNat

theorem toInt_price (l : Leaf) :
    l.price.toInt = l.key.price.toNat - if l.isUpper then 2 ^ 64 else 0 := by
  have bound := l.key.price.toNat_lt
  have cases : l.price.toInt = if 2 * l.key.price.toNat < 2 ^ 64 then (l.key.price.toNat : Int)
      else l.key.price.toNat - (2 ^ 64 : Nat) := BitVec.toInt_eq_toNat_cond _
  rw [cases]
  unfold isUpper
  split <;> split <;> simp_all <;> omega

variable {a b : Leaf}

theorem price_le_iff (upper : a.isUpper = b.isUpper) :
    a.price ≤ b.price ↔ a.key.price.toNat ≤ b.key.price.toNat := by
  rw [Int64.le_iff_toInt_le, toInt_price, toInt_price, upper]
  omega

/-- By the signed price the upper half comes first. -/
theorem isUpper_of_price_le (le : a.price ≤ b.price) (upper : b.isUpper = true) :
    a.isUpper = true := by
  have bound := b.key.price.toNat_lt
  rw [Int64.le_iff_toInt_le, toInt_price, toInt_price, if_pos upper] at le
  by_contra lower
  rw [if_neg lower] at le
  omega

theorem isUpper_of_le (le : a.key.price.toNat ≤ b.key.price.toNat) (upper : a.isUpper = true) :
    b.isUpper = true := by
  rw [isUpper, decide_eq_true_eq] at upper ⊢
  exact Nat.le_trans upper le

theorem price_le_trans (a b c : Leaf) (first : decide (a.price ≤ b.price) = true)
    (second : decide (b.price ≤ c.price) = true) : decide (a.price ≤ c.price) = true := by
  rw [decide_eq_true_eq] at first second ⊢
  exact Int64.le_trans first second

theorem price_le_total (a b : Leaf) :
    (decide (a.price ≤ b.price) || decide (b.price ≤ a.price)) = true := by
  rw [Bool.or_eq_true, decide_eq_true_eq, decide_eq_true_eq]
  exact Int64.le_total ..

end Leaf

/-- Asks as the tree ranks them, and as they are sorted. -/
theorem resorted_asks {ranked : List Leaf}
    (ascending : ranked.Pairwise fun a b => a.orderId < b.orderId) :
    Resorted Leaf.isUpper ranked (ranked.mergeSort fun a b => a.price ≤ b.price) := by
  refine resorted_of_ranked Leaf.price_le_trans Leaf.price_le_total ascending ?_ ?_ ?_
  · intro a b less upper
    exact decide_eq_true ((Leaf.price_le_iff upper).mpr (OrderKey.price_le_of_toWord_lt less))
  · intro a b less
    exact Leaf.isUpper_of_le (OrderKey.price_le_of_toWord_lt less)
  · intro a b le
    exact Leaf.isUpper_of_price_le (of_decide_eq_true le)

theorem resorted_bids {ranked : List Leaf}
    (descending : ranked.Pairwise fun a b => b.orderId < a.orderId) :
    Resorted (!Leaf.isUpper ·) ranked (ranked.mergeSort fun a b => b.price ≤ a.price) := by
  refine resorted_of_ranked (fun a b c first second => Leaf.price_le_trans c b a second first)
    (fun a b => Leaf.price_le_total b a) descending ?_ ?_ ?_
  · intro a b less upper
    exact decide_eq_true ((Leaf.price_le_iff (Bool.not_inj upper.symm)).mpr
      (OrderKey.price_le_of_toWord_lt less))
  · intro a b less lower
    have upper := Leaf.isUpper_of_le (OrderKey.price_le_of_toWord_lt less)
    cases holds : b.isUpper <;> simp_all
  · intro a b le lower
    have upper := Leaf.isUpper_of_price_le (of_decide_eq_true le)
    cases holds : a.isUpper <;> simp_all

namespace OrderBook

/-- A side by itself, where prices have no sign, and what the two-sided book shows of it. -/
structure TwoViews (side : BookSide) (front : Leaf → Bool) (ranked shown : List Leaf)
    (top : Option Leaf) : Prop where
  orders_eq : side.orders = .ok ranked
  best_eq : side.best = .ok ranked.head?
  shown_eq : shown = ranked.filter front ++ ranked.filter (!front ·)
  orders_agree_iff : side.orders = .ok shown ↔ ¬Mixed Leaf.isUpper ranked
  best_agrees_iff : side.best = .ok top ↔ ¬Mixed Leaf.isUpper ranked

theorem expectSide_eq_ok_iff {book : BookSide} {side : Side} {u : Unit} :
    expectSide book side = .ok u ↔ book.side = side := by
  unfold expectSide
  split <;> simp_all

theorem walked_eq_ok_iff {book : BookSide} {ascending : Bool} {leaves : List Leaf} :
    walked book ascending = .ok leaves ↔ book.walk ascending = ⟨leaves, none⟩ := by
  unfold walked Walk.result
  rcases book.walk ascending with ⟨met, none | defect⟩ <;> simp [Except.mapError]

/-- The sides are looked at before the walks, and the orders of both walks are sorted. -/
theorem ofSides_eq_ok_iff {bids asks : BookSide} {book : OrderBook} :
    ofSides bids asks = .ok book ↔ bids.side = .bid ∧ asks.side = .ask ∧
      ∃ bidOrders askOrders, bids.walk false = ⟨bidOrders, none⟩ ∧
        asks.walk true = ⟨askOrders, none⟩ ∧
        book = {
          bids := bidOrders.mergeSort fun a b => b.price ≤ a.price
          asks := askOrders.mergeSort fun a b => a.price ≤ b.price } := by
  simp only [ofSides, bind_eq_ok_iff, expectSide_eq_ok_iff, walked_eq_ok_iff, exists_const,
    pure, Except.pure, Except.ok.injEq]
  constructor
  · rintro ⟨bidSide, askSide, bidOrders, bidWalk, askOrders, askWalk, rfl⟩
    exact ⟨bidSide, askSide, bidOrders, askOrders, bidWalk, askWalk, rfl⟩
  · rintro ⟨bidSide, askSide, bidOrders, askOrders, bidWalk, askWalk, rfl⟩
    exact ⟨bidSide, askSide, bidOrders, bidWalk, askOrders, askWalk, rfl⟩

theorem ofSides_of_walks {bids asks : BookSide} {bidOrders askOrders : List Leaf}
    (bidSide : bids.side = .bid) (askSide : asks.side = .ask)
    (bidWalk : bids.walk false = ⟨bidOrders, none⟩) (askWalk : asks.walk true = ⟨askOrders, none⟩) :
    ofSides bids asks = .ok {
      bids := bidOrders.mergeSort fun a b => b.price ≤ a.price
      asks := askOrders.mergeSort fun a b => a.price ≤ b.price } :=
  ofSides_eq_ok_iff.mpr ⟨bidSide, askSide, _, _, bidWalk, askWalk, rfl⟩

variable {side : BookSide} {ranked shown : List Leaf} {front : Leaf → Bool}

theorem twoViews_of_resorted (orders : side.orders = .ok ranked)
    (best : side.best = .ok ranked.head?) (resorted : Resorted front ranked shown)
    (kinds : Mixed front ranked ↔ Mixed Leaf.isUpper ranked) :
    TwoViews side front ranked shown shown.head? where
  orders_eq := orders
  best_eq := best
  shown_eq := resorted.shown_eq
  orders_agree_iff := by
    rw [orders, Except.ok.injEq, eq_comm, resorted.agrees_iff, kinds]
  best_agrees_iff := by
    rw [best, Except.ok.injEq, eq_comm, resorted.head_agrees_iff, kinds]

/-- For sides that are empty or hold a tree there is a book, with the orders of either side. It has
the bids from `2 ^ 63` on behind the other bids and the asks from there on in front of the other
asks, and each kind as the side ranks it. So the book agrees with the side on all orders, or on the
best one, exactly if not both kinds of prices occur on the side. -/
theorem views_agree_iff (bids asks : BookSide) (bidSide : bids.side = .bid)
    (askSide : asks.side = .ask) (bidsFormed : bids.Formed) (asksFormed : asks.Formed) :
    ∃ book bidOrders askOrders, ofSides bids asks = .ok book ∧
      TwoViews bids (!Leaf.isUpper ·) bidOrders book.bids book.topBid ∧
      TwoViews asks Leaf.isUpper askOrders book.asks book.topAsk := by
  obtain ⟨bidOrders, bidWalk, bidOrders_eq, bidBest, descending⟩ := bidsFormed.orders_and_best
  obtain ⟨askOrders, askWalk, askOrders_eq, askBest, ascending⟩ := asksFormed.orders_and_best
  rw [bidSide] at bidWalk descending
  rw [askSide] at askWalk ascending
  refine ⟨_, bidOrders, askOrders, ofSides_of_walks bidSide askSide bidWalk askWalk, ?_, ?_⟩
  · exact twoViews_of_resorted bidOrders_eq bidBest (resorted_bids descending) (mixed_not _ _)
  · exact twoViews_of_resorted askOrders_eq askBest (resorted_asks ascending) .rfl

open BookSide

def lowAsk : Leaf := orderAt 1 1

def highAsk : Leaf := orderAt 0x8000000000000000 2

def twoHalves : BookSide where
  header := Header.new .asks 0 true
  side := .ask
  bumpIndex := 3
  freeListLength := 0
  freeListHead := 0
  root := 0
  leafCount := 2
  nodes := [.inner (branchAt 0 1 1 1 2), .leaf lowAsk, .leaf highAsk] ++
    List.replicate 1021 .uninitialized

def twoHalvesTree : SlotTree :=
  .branch 0 (branchAt 0 1 1 1 2) (.leaf 1 lowAsk) (.leaf 2 highAsk)

theorem twoHalves_holds : twoHalves.Holds twoHalvesTree where
  nonempty := by decide
  root := rfl
  stored := ⟨rfl, rfl, rfl, rfl, rfl⟩
  distinct := by decide
  critbit := by decide +kernel

theorem walk_twoHalves : twoHalves.walk true = ⟨[lowAsk, highAsk], none⟩ :=
  twoHalves_holds.walk_eq true

/-- The bids agree. Of the asks the side has the low one first, the book the high one. -/
theorem views_of_twoHalves :
    ∃ book, ofSides scattered twoHalves = .ok book ∧
      scattered.orders = .ok book.bids ∧ scattered.best = .ok book.topBid ∧
      twoHalves.orders = .ok [lowAsk, highAsk] ∧
      twoHalves.best = .ok (some lowAsk) ∧
      book.asks = [highAsk, lowAsk] ∧ book.topAsk = some highAsk := by
  obtain ⟨book, bidOrders, askOrders, built, bids, asks⟩ :=
    views_agree_iff scattered twoHalves rfl rfl (.inr ⟨_, scattered_holds⟩)
      (.inr ⟨_, twoHalves_holds⟩)
  have bidOrders_eq : bidOrders = [orderAt 9 0, orderAt 5 2, orderAt 5 1] :=
    Except.ok.inj (bids.orders_eq.symm.trans (congrArg Walk.result (scattered_holds.walk_eq false)))
  have askOrders_eq : askOrders = [lowAsk, highAsk] :=
    Except.ok.inj (asks.orders_eq.symm.trans (congrArg Walk.result walk_twoHalves))
  subst bidOrders_eq askOrders_eq
  have unmixed : ¬Mixed Leaf.isUpper [orderAt 9 0, orderAt 5 2, orderAt 5 1] := by
    rintro ⟨⟨l, member, upper⟩, -⟩
    revert l
    decide +kernel
  have shown : book.asks = [highAsk, lowAsk] := asks.shown_eq.trans (by decide +kernel)
  exact ⟨book, built, bids.orders_agree_iff.mpr unmixed, bids.best_agrees_iff.mpr unmixed,
    asks.orders_eq, asks.best_eq, shown, congrArg List.head? shown⟩

def noBids : BookSide :=
  { twoHalves with header := Header.new .bids 0 true, side := .bid, leafCount := 0 }

/-- For sides that hold trees, the orders of the book can differ from those of the side, and the
best ones with them. -/
theorem views_differ :
    ¬∀ bids asks : BookSide, bids.side = .bid → asks.side = .ask → bids.Formed → asks.Formed →
      ∃ book bidOrders askOrders, ofSides bids asks = .ok book ∧
        bids.orders = .ok bidOrders ∧ asks.orders = .ok askOrders ∧
        book.bids = bidOrders ∧ book.asks = askOrders ∧
        bids.best = .ok book.topBid ∧ asks.best = .ok book.topAsk := by
  intro agree
  obtain ⟨book, bidOrders, askOrders, built, -, askOrders_eq, -, same, -, -⟩ :=
    agree noBids twoHalves rfl rfl (.inl rfl) (.inr ⟨_, twoHalves_holds⟩)
  rw [ofSides_of_walks rfl rfl (walk_of_isEmpty rfl false) walk_twoHalves] at built
  obtain rfl := Except.ok.inj built
  obtain rfl := Except.ok.inj (askOrders_eq.symm.trans (congrArg Walk.result walk_twoHalves))
  have resorted := resorted_asks twoHalves_holds.critbit.sorted
  have upper : highAsk.isUpper = true := by decide +kernel
  have lower : lowAsk.isUpper = false := by decide +kernel
  exact resorted.agrees_iff.mp same
    ⟨⟨_, List.mem_cons_of_mem _ List.mem_cons_self, upper⟩, _, List.mem_cons_self, lower⟩

end OrderBook
end PerpDex
