import PerpDex.Proofs.Book.BestFirst

/-! Which pairs of sides make a two-sided book, and how it ranks their orders: by the signed price,
and those of one price as the walk of the side meets them. On a side that holds a tree the walk goes
by key, so orders of one price stand in the order of their sequence numbers. Bids are walked
downwards; they store the complement of their number, so that the older bid stands in front. -/
namespace PerpDex

/-- The orders that a walk has met, sorted by price; those of one price are left in their order. -/
structure SortedByPrice (before : Int64 → Int64 → Prop) (walked shown : List Leaf) : Prop where
  perm : shown.Perm walked
  sorted : shown.Pairwise fun a b => before a.price b.price
  level : ∀ price, (shown.filter fun l => l.price = price) = walked.filter fun l => l.price = price

variable {before : Int64 → Int64 → Prop} {walked shown : List Leaf}

theorem sortedByPrice_mergeSort (before : Int64 → Int64 → Prop) [DecidableRel before]
    (trans : ∀ p q r, before p q → before q r → before p r) (total : ∀ p q, before p q ∨ before q p)
    (walked : List Leaf) :
    SortedByPrice before walked (walked.mergeSort fun a b => before a.price b.price) := by
  have trans' (a b c : Leaf) (first : decide (before a.price b.price) = true)
      (second : decide (before b.price c.price) = true) : decide (before a.price c.price) = true :=
    decide_eq_true (trans _ _ _ (of_decide_eq_true first) (of_decide_eq_true second))
  have total' (a b : Leaf) :
      (decide (before a.price b.price) || decide (before b.price a.price)) = true := by
    simpa using total a.price b.price
  refine ⟨List.mergeSort_perm .., ?_, fun price => filter_mergeSort trans' total' ?_⟩
  · exact (List.pairwise_mergeSort trans' total' walked).imp of_decide_eq_true
  · refine List.pairwise_of_forall_mem_list fun a inA b inB => ?_
    have atA : a.price = price := by simpa using (List.mem_filter.mp inA).2
    have atB : b.price = price := by simpa using (List.mem_filter.mp inB).2
    simpa [atA, atB] using total price price

theorem sortedByPrice_bids (walked : List Leaf) :
    SortedByPrice (· ≥ ·) walked (walked.mergeSort fun a b => b.price ≤ a.price) :=
  sortedByPrice_mergeSort (· ≥ ·) (fun _ _ _ first second => Int64.le_trans second first)
    (fun p q => Int64.le_total q p) walked

theorem sortedByPrice_asks (walked : List Leaf) :
    SortedByPrice (· ≤ ·) walked (walked.mergeSort fun a b => a.price ≤ b.price) :=
  sortedByPrice_mergeSort (· ≤ ·) (fun _ _ _ first second => Int64.le_trans first second)
    Int64.le_total walked

/-- Whatever holds along the walk holds among the orders of one price. -/
theorem SortedByPrice.pairwise_level {R : Leaf → Leaf → Prop}
    (shows : SortedByPrice before walked shown) (along : walked.Pairwise R) :
    shown.Pairwise fun a b => a.price = b.price → R a b := by
  rw [List.pairwise_iff_forall_sublist]
  intro a b pair same
  have kept := pair.filter fun l => l.price = b.price
  rw [shows.level] at kept
  have met : [a, b].Sublist walked := by
    simpa [same] using kept.trans List.filter_sublist
  exact List.pairwise_iff_forall_sublist.mp along met

namespace Leaf

variable {a b : Leaf}

theorem key_price_eq (same : a.price = b.price) : a.key.price = b.key.price := by
  simpa [price] using congrArg Int64.toUInt64 same

/-- Among keys of one price the sequence number decides. -/
theorem sequence_lt_of_orderId_lt (same : a.price = b.price) (less : a.orderId < b.orderId) :
    a.key.sequence < b.key.sequence := by
  rcases OrderKey.before_iff.mp (OrderKey.toWord_lt_iff.mp less) with lower | ⟨-, earlier⟩
  · exact absurd (key_price_eq same) (UInt64.ne_of_lt lower)
  · exact earlier

end Leaf

/-- If the walk goes up by key, numbers ascend among the orders of one price. -/
theorem SortedByPrice.ascending (shows : SortedByPrice before walked shown)
    (byKey : walked.Pairwise fun a b => a.orderId < b.orderId) :
    shown.Pairwise fun a b => a.price = b.price → a.key.sequence < b.key.sequence := by
  refine (shows.pairwise_level byKey).imp ?_
  intro a b less same
  exact Leaf.sequence_lt_of_orderId_lt same (less same)

theorem SortedByPrice.descending (shows : SortedByPrice before walked shown)
    (byKey : walked.Pairwise fun a b => b.orderId < a.orderId) :
    shown.Pairwise fun a b => a.price = b.price → b.key.sequence < a.key.sequence := by
  refine (shows.pairwise_level byKey).imp ?_
  intro a b less same
  exact Leaf.sequence_lt_of_orderId_lt same.symm (less same)

theorem complement_lt {m n : UInt64} (less : m < n) : ~~~n < ~~~m := by
  have := m.toNat_lt
  have := n.toNat_lt
  rw [UInt64.lt_iff_toNat_lt] at less ⊢
  simp only [UInt64.toNat_not, UInt64.size]
  omega

namespace BookSide

theorem walk_of_defect?_eq_none {book : BookSide} {ascending : Bool}
    (ended : (book.walk ascending).defect? = none) :
    book.walk ascending = ⟨(book.walk ascending).leaves, none⟩ := by
  rw [← ended]

/-- On a side with a tree a walk goes by key, upwards or downwards. -/
theorem Formed.sorted_walk {book : BookSide} (formed : book.Formed) {ascending : Bool}
    {leaves : List Leaf} (walk : book.walk ascending = ⟨leaves, none⟩) :
    leaves.Pairwise fun a b =>
      if ascending then a.orderId < b.orderId else b.orderId < a.orderId := by
  obtain ⟨ranked, walk', -, sorted⟩ := formed.exists_ranked ascending
  rw [walk] at walk'
  obtain ⟨rfl, -⟩ := Walk.mk.inj walk'
  exact sorted

end BookSide

namespace OrderBook

open BookSide

/-- Whatever the arenas hold, there is a book exactly if the sides are a bid side and an ask side and
neither walk reports a defect. It has the orders that the walks meet, each as often, bids from the
highest signed price down and asks from the lowest up, and those of one price as the walk meets
them. If a side holds a tree, its asks of one price stand by ascending number, and its bids by
descending number, which is by ascending number for bids that store the complement. -/
theorem ofSides_ranks_walks (bids asks : BookSide) :
    ((∃ book, ofSides bids asks = .ok book) ↔
      bids.side = .bid ∧ asks.side = .ask ∧
        (bids.walk false).defect? = none ∧ (asks.walk true).defect? = none) ∧
    ∀ book, ofSides bids asks = .ok book →
      SortedByPrice (· ≥ ·) (bids.walk false).leaves book.bids ∧
      SortedByPrice (· ≤ ·) (asks.walk true).leaves book.asks ∧
      (asks.Formed → book.asks.Pairwise fun a b =>
        a.price = b.price → a.key.sequence < b.key.sequence) ∧
      (bids.Formed → book.bids.Pairwise fun a b =>
        a.price = b.price → b.key.sequence < a.key.sequence) ∧
      ∀ number : Leaf → UInt64, bids.Formed →
        (∀ l ∈ book.bids, l.key.sequence = ~~~number l) →
        book.bids.Pairwise fun a b => a.price = b.price → number a < number b := by
  constructor
  · constructor
    · rintro ⟨book, built⟩
      obtain ⟨bidSide, askSide, _, _, bidWalk, askWalk, -⟩ := ofSides_eq_ok_iff.mp built
      exact ⟨bidSide, askSide, by rw [bidWalk], by rw [askWalk]⟩
    · rintro ⟨bidSide, askSide, bidsEnd, asksEnd⟩
      exact ⟨_, ofSides_of_walks bidSide askSide (walk_of_defect?_eq_none bidsEnd)
        (walk_of_defect?_eq_none asksEnd)⟩
  · intro book built
    obtain ⟨-, -, bidOrders, askOrders, bidWalk, askWalk, rfl⟩ := ofSides_eq_ok_iff.mp built
    have bidsShown := sortedByPrice_bids bidOrders
    have asksShown := sortedByPrice_asks askOrders
    have upwards (formed : asks.Formed) :=
      asksShown.ascending (by simpa using formed.sorted_walk askWalk)
    have downwards (formed : bids.Formed) :=
      bidsShown.descending (by simpa using formed.sorted_walk bidWalk)
    rw [bidWalk, askWalk]
    refine ⟨bidsShown, asksShown, upwards, downwards, fun number formed stored => ?_⟩
    refine (downwards formed).imp_of_mem fun inA inB less same => ?_
    have complements := less same
    rw [stored _ inA, stored _ inB] at complements
    simpa using complement_lt complements

/-- A branch with one order on both sides, and a slot that is not used: no tree, but the walk ends
before the bound. -/
def shared : BookSide where
  header := Header.new .asks 0 true
  side := .ask
  bumpIndex := 2
  freeListLength := 0
  freeListHead := 0
  root := 0
  leafCount := 1
  nodes := [.inner (branchAt 0 7 3 1 1), .leaf (orderAt 7 3), .uninitialized]

/-- The asks come twice, since the walk meets the order twice. The bids of price 5 are in the order
of the numbers whose complements they store. -/
theorem ofSides_ranks_shared :
    ∃ book, ofSides scattered shared = .ok book ∧
      book.asks.Perm [orderAt 7 3, orderAt 7 3] ∧
      (book.bids.filter fun l => l.price = 5) = [orderAt 5 2, orderAt 5 1] ∧
      book.bids.Pairwise fun a b =>
        a.price = b.price → ~~~a.key.sequence < ~~~b.key.sequence := by
  have bidWalk : scattered.walk false = ⟨[orderAt 9 0, orderAt 5 2, orderAt 5 1], none⟩ :=
    scattered_holds.walk_eq false
  have askWalk : shared.walk true = ⟨[orderAt 7 3, orderAt 7 3], none⟩ := by decide +kernel
  obtain ⟨accepted, shows⟩ := ofSides_ranks_walks scattered shared
  obtain ⟨book, built⟩ := accepted.mpr ⟨rfl, rfl, by rw [bidWalk], by rw [askWalk]⟩
  obtain ⟨bids, asks, -, -, byNumber⟩ := shows book built
  refine ⟨book, built, ?_, ?_, ?_⟩
  · simpa [askWalk] using asks.perm
  · rw [bids.level, bidWalk]
    decide +kernel
  · exact byNumber (fun l => ~~~l.key.sequence) (.inr ⟨_, scattered_holds⟩) (by simp)

end OrderBook
end PerpDex
