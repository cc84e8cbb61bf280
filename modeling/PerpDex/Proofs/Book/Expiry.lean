import PerpDex.Proofs.Book.BestFirst
import PerpDex.Proofs.Book.Fresh

/-! The expiries that the branches of a fresh tree keep. Each tells the earliest expiry on its side, so
that before the last of all seconds it has passed just when an order below that child has expired. The
branch at the root thus tells whether a two-sided book loses orders of the side. -/
namespace PerpDex

namespace Leaf

variable {l : Leaf} {s t : UInt64}

theorem isValid_eq_false_iff : l.isValid t = false ↔ ∃ expiry ∈ l.expiresAt, expiry ≤ t := by
  rw [isValid]
  cases l.expiresAt <;> simp

/-- An order that is valid at two times is one that is valid at the later of them. -/
theorem isValid_max (l : Leaf) (s t : UInt64) :
    l.isValid (max s t) = (l.isValid s && l.isValid t) := by
  rw [isValid, isValid, isValid]
  cases l.expiresAt with
  | none => rfl
  | some expiry =>
    have later : max s t < expiry ↔ s < expiry ∧ t < expiry := by
      rw [show max s t = if s ≤ t then t else s from rfl]
      grind
    simp [later]

end Leaf

namespace Tree

variable {leaves : List Leaf} {t : UInt64}

theorem foldl_earliest_le_iff (times : List UInt64) (start : UInt64) :
    times.foldl (fun earliest t => if t < earliest then t else earliest) start ≤ t ↔
      start ≤ t ∨ ∃ time ∈ times, time ≤ t := by
  -- For any start, since the first time takes its place if it is earlier.
  induction times generalizing start with
  | nil => simp
  | cons time times ih =>
    rw [List.foldl_cons, ih]
    by_cases earlier : time < start
    · have le : start ≤ t → time ≤ t := UInt64.le_trans (UInt64.le_of_lt earlier)
      simp only [earlier, if_true, List.exists_mem_cons_iff]
      tauto
    · have le : time ≤ t → start ≤ t := UInt64.le_trans (UInt64.not_lt.mp earlier)
      simp only [earlier, if_false, List.exists_mem_cons_iff]
      tauto

/-- The greatest number stands for orders that never expire, and for those that expire then. -/
theorem earliestExpiry_le_iff (before : t.toNat < 2 ^ 64 - 1) :
    earliestExpiry leaves ≤ t ↔ ∃ l ∈ leaves, l.isValid t = false := by
  have never : ¬UInt64.ofNat (2 ^ 64 - 1) ≤ t := Nat.not_le.mpr before
  simp only [earliestExpiry, foldl_earliest_le_iff, never, false_or, List.mem_filterMap,
    Leaf.isValid_eq_false_iff]
  constructor
  · rintro ⟨expiry, ⟨l, member, expires⟩, passed⟩
    exact ⟨l, member, expiry, expires, passed⟩
  · rintro ⟨l, member, expiry, expires, passed⟩
    exact ⟨expiry, ⟨l, member, expires⟩, passed⟩

end Tree

/-- The orders that are met by following children from a slot. -/
inductive Under (nodes : List Node) : Handle → Leaf → Prop where
  | here {slot : Handle} {l : Leaf} : nodes[slot.toNat]? = some (.leaf l) → Under nodes slot l
  | child {slot : Handle} {b : Branch} {l : Leaf} (bit : Bool) :
    nodes[slot.toNat]? = some (.inner b) → Under nodes (b.child bit) l → Under nodes slot l

theorem under_inner_iff {nodes : List Node} {slot : Handle} {b : Branch} {l : Leaf}
    (inner : nodes[slot.toNat]? = some (.inner b)) :
    Under nodes slot l ↔ ∃ bit, Under nodes (b.child bit) l := by
  constructor
  · intro under
    cases under with
    | here found => cases found.symm.trans inner
    | child bit found below =>
      obtain rfl := Node.inner.inj (Option.some.inj (found.symm.trans inner))
      exact ⟨bit, below⟩
  · rintro ⟨bit, below⟩
    exact .child bit inner below

def Branch.expiry (b : Branch) (bit : Bool) : UInt64 := if bit then b.rightExpiry else b.leftExpiry

namespace SlotTree

variable {nodes : List Node} {tree : SlotTree}

theorem Stored.under_iff (stored : tree.Stored nodes) (l : Leaf) :
    Under nodes tree.root l ↔ l ∈ tree.leaves := by
  induction tree with
  | leaf slot own =>
    rw [leaves, List.mem_singleton]
    constructor
    · intro under
      cases under with
      | here found => exact Node.leaf.inj (Option.some.inj (found.symm.trans stored))
      | child bit inner _ => cases inner.symm.trans stored
    · rintro rfl
      exact .here stored
  | branch slot b left right ihLeft ihRight =>
    obtain ⟨here, toLeft, toRight, inLeft, inRight⟩ := stored
    rw [leaves, List.mem_append, ← ihLeft inLeft, ← ihRight inRight, ← toLeft, ← toRight]
    exact (under_inner_iff here).trans Bool.exists_bool

/-- Every branch keeps the earliest expiries of its subtrees. -/
def Timed : SlotTree → Prop
  | leaf .. => True
  | branch _ b left right =>
    b.leftExpiry = Tree.earliestExpiry left.leaves ∧
      b.rightExpiry = Tree.earliestExpiry right.leaves ∧ left.Timed ∧ right.Timed

/-- Below every child of a branch in the tree there are orders whose earliest expiry it keeps. -/
theorem Timed.exists_leaves (timed : tree.Timed) (stored : tree.Stored nodes) {slot : Handle}
    {b : Branch} (member : slot ∈ tree.slots) (here : nodes[slot.toNat]? = some (.inner b))
    (bit : Bool) : ∃ leaves, b.expiry bit = Tree.earliestExpiry leaves ∧
      ∀ l, Under nodes (b.child bit) l ↔ l ∈ leaves := by
  induction tree with
  | leaf own l =>
    obtain rfl := List.mem_singleton.mp member
    cases here.symm.trans stored
  | branch own b' left right ihLeft ihRight =>
    obtain ⟨there, toLeft, toRight, inLeft, inRight⟩ := stored
    obtain ⟨keptLeft, keptRight, timedLeft, timedRight⟩ := timed
    rcases List.mem_cons.mp member with rfl | below
    · obtain rfl := Node.inner.inj (Option.some.inj (here.symm.trans there))
      cases bit with
      | false =>
        have toLeft : b.child false = left.root := toLeft
        exact ⟨left.leaves, keptLeft, toLeft ▸ inLeft.under_iff⟩
      | true =>
        have toRight : b.child true = right.root := toRight
        exact ⟨right.leaves, keptRight, toRight ▸ inRight.under_iff⟩
    · rcases List.mem_append.mp below with low | high
      · exact ihLeft timedLeft inLeft low
      · exact ihRight timedRight inRight high

end SlotTree

theorem Tree.timed_place (tree : Tree) (start : Nat) : (tree.place start).Timed := by
  induction tree generalizing start with
  | leaf => trivial
  | branch _ left right ihLeft ihRight =>
    refine ⟨?_, ?_, ihLeft _, ihRight _⟩
    · rw [leaves_place]
    · rw [leaves_place]

namespace BookSide

variable {side : Side} {leaves orders : List Leaf} {book : BookSide}

theorem Fresh.exists_timed (fresh : book.Fresh orders) (ascending : Tree.Ascending orders)
    (some : orders ≠ []) (root : book.root = 0) {behind : List Node}
    (laid : book.nodes = freshNodes orders ++ behind) : ∃ tree, book.Holds tree ∧ tree.Timed := by
  -- The tree that freshness gives need not be the placed one; only the number of orders is taken.
  obtain ⟨_, held, -⟩ := fresh.tree some
  have fits := fresh.capacity
  rw [laid, List.length_append] at fits
  obtain ⟨head, rest, rfl⟩ := List.exists_cons_of_ne_nil some
  exact ⟨_, holds_of_freshNodes ascending held.nonempty root laid (by omega),
    Tree.timed_place _ 0⟩

/-- A side that is built from orders is fresh, and its branches keep the expiries. -/
theorem fresh_of_ofLeaves (built : ofLeaves side leaves = .ok book) :
    book.side = side ∧ book.Fresh (ranking leaves) ∧
      (ranking leaves ≠ [] → ∃ tree, book.Holds tree ∧ tree.Timed) := by
  have ascending := sorted_ranking leaves
  rw [ofLeaves, ranked_eq_ranking, show maxOrders = 512 from rfl] at built
  split at built
  · cases built
  · rename_i few
    obtain rfl := Except.ok.inj built
    refine ⟨rfl, ?fresh, fun some => Fresh.exists_timed ?fresh ascending some rfl rfl⟩
    exact fresh_of_freshNodes ascending (Nat.not_lt.mp few) rfl rfl rfl rfl

/-- Branches stand in used slots alone, and these are the slots of the tree. -/
theorem Fresh.mem_slots (fresh : book.Fresh orders) {tree : SlotTree} (holds : book.Holds tree)
    (some : orders ≠ []) {i : Nat} {b : Branch} (here : book.nodes[i]? = .some (.inner b)) :
    (UInt32.ofNat i).toNat = i ∧ UInt32.ofNat i ∈ tree.slots := by
  have inside : i < 1024 := fresh.capacity ▸ (List.getElem?_eq_some_iff.mp here).1
  have number : (UInt32.ofNat i).toNat = i := Tree.toNat_slot (by omega)
  refine ⟨number, (holds.reachable_iff _).mp ((fresh.reached some _).mpr ?_)⟩
  rw [number]
  by_contra beyond
  cases here.symm.trans (fresh.unused i (Nat.not_lt.mp beyond) inside)

theorem orders_ne_nil_of_inner (fresh : book.Fresh orders) {i : Nat} {b : Branch}
    (here : book.nodes[i]? = some (.inner b)) : orders ≠ [] := by
  rintro rfl
  have inside : i < 1024 := fresh.capacity ▸ (List.getElem?_eq_some_iff.mp here).1
  have bump : book.bumpIndex.toNat = 0 := fresh.bump
  cases here.symm.trans (fresh.unused i (by omega) inside)

theorem expiry_le_iff (built : ofLeaves side leaves = .ok book) {i : Nat} {b : Branch}
    (here : book.nodes[i]? = some (.inner b)) (bit : Bool) {t : UInt64}
    (before : t.toNat < 2 ^ 64 - 1) :
    b.expiry bit ≤ t ↔ ∃ l, Under book.nodes (b.child bit) l ∧ l.isValid t = false := by
  obtain ⟨-, fresh, timed⟩ := fresh_of_ofLeaves built
  have some := orders_ne_nil_of_inner fresh here
  obtain ⟨tree, holds, timed⟩ := timed some
  obtain ⟨number, member⟩ := fresh.mem_slots holds some here
  obtain ⟨below, kept, under⟩ := timed.exists_leaves holds.stored member (number.symm ▸ here) bit
  simp only [kept, Tree.earliestExpiry_le_iff before, under]

/-- The root of a tree of two orders or more is a branch. -/
theorem Holds.root_inner {tree : SlotTree} (holds : book.Holds tree) (two : 2 ≤ tree.leaves.length) :
    ∃ b, book.nodes[book.root.toNat]? = some (.inner b) := by
  obtain ⟨-, root, stored, -, -⟩ := holds
  cases tree with
  | leaf slot l => simp [SlotTree.leaves] at two
  | branch slot b left right => exact ⟨b, root ▸ stored.1⟩

end BookSide

namespace OrderBook

open BookSide

variable {book : OrderBook} {side : Side} {t : UInt64}

theorem orders_withoutExpired (book : OrderBook) (t : UInt64) (side : Side) :
    (book.withoutExpired t).orders side = (book.orders side).filter (·.isValid t) := by
  cases side <;> rfl

/-- What is left out at one time and then at another is what is left out at the later time. -/
theorem withoutExpired_withoutExpired (book : OrderBook) (s t : UInt64) :
    (book.withoutExpired s).withoutExpired t = book.withoutExpired (max s t) := by
  simp only [withoutExpired, List.filter_filter, Leaf.isValid_max, Bool.and_comm]

theorem drops_iff :
    (∃ l ∈ book.orders side, l ∉ (book.withoutExpired t).orders side) ↔
      ∃ l ∈ book.orders side, l.isValid t = false := by
  refine exists_congr fun l => and_congr_right fun member => ?_
  rw [orders_withoutExpired, List.mem_filter]
  simp [member]

def sideOf (bids asks : BookSide) : Side → BookSide
  | .bid => bids
  | .ask => asks

section Shown

variable {bids asks built : BookSide} {leaves : List Leaf}
  (made : ofSides bids asks = .ok book) (part : sideOf bids asks side = built)

include made part

/-- A book shows the orders of the trees that its sides hold. -/
theorem mem_orders_iff {tree : SlotTree} (holds : built.Holds tree) (l : Leaf) :
    l ∈ book.orders side ↔ l ∈ tree.leaves := by
  obtain ⟨-, -, bidOrders, askOrders, bidWalk, askWalk, rfl⟩ := ofSides_eq_ok_iff.mp made
  subst part
  cases side with
  | bid =>
    obtain ⟨rfl, -⟩ := Walk.mk.inj ((holds.walk_eq false).symm.trans bidWalk)
    simp [orders, SlotTree.leavesBy]
  | ask =>
    obtain ⟨rfl, -⟩ := Walk.mk.inj ((holds.walk_eq true).symm.trans askWalk)
    simp [orders, SlotTree.leavesBy]

theorem drops_iff_root (accepted : ofLeaves side leaves = .ok built)
    (two : 2 ≤ built.leafCount.toNat) :
    ∃ b, built.nodes[built.root.toNat]? = some (.inner b) ∧ ∀ t, t.toNat < 2 ^ 64 - 1 →
      ((∃ l ∈ book.orders side, l ∉ (book.withoutExpired t).orders side) ↔
        ∃ bit, b.expiry bit ≤ t) := by
  obtain ⟨-, fresh, -⟩ := fresh_of_ofLeaves accepted
  rw [fresh.leafCount] at two
  have some : ranking leaves ≠ [] := List.ne_nil_of_length_pos (by omega)
  obtain ⟨tree, holds, ranked, -⟩ := fresh.tree some
  obtain ⟨b, inner⟩ := holds.root_inner (by rwa [ranked])
  refine ⟨b, inner, fun t before => ?_⟩
  have under (l : Leaf) : l ∈ book.orders side ↔ ∃ bit, Under built.nodes (b.child bit) l := by
    rw [mem_orders_iff made part holds, ← holds.stored.under_iff, holds.root, under_inner_iff inner]
  rw [drops_iff]
  simp only [under, expiry_le_iff accepted inner _ before]
  constructor
  · rintro ⟨l, ⟨bit, below⟩, expired⟩
    exact ⟨bit, l, below, expired⟩
  · rintro ⟨bit, l, below, expired⟩
    exact ⟨l, ⟨bit, below⟩, expired⟩

end Shown

/-- On a side that is built from orders every branch keeps, for each child, a number that tells at any
second but the last whether some order below that child is no longer valid. The numbers at the root of
two orders or more thus tell whether a book with this side loses one of its orders. Leaving out what
has expired at two times is leaving out what has expired at the later one. -/
theorem expiries_exact {leaves : List Leaf} {built : BookSide}
    (accepted : ofLeaves side leaves = .ok built) :
    (∀ (i : Nat) (b : Branch) (bit : Bool) (t : UInt64),
        built.nodes[i]? = some (.inner b) → t.toNat < 2 ^ 64 - 1 →
        (b.expiry bit ≤ t ↔ ∃ l, Under built.nodes (b.child bit) l ∧ l.isValid t = false)) ∧
      (∀ bids asks book, ofSides bids asks = .ok book → sideOf bids asks side = built →
        2 ≤ built.leafCount.toNat →
        ∃ b, built.nodes[built.root.toNat]? = some (.inner b) ∧ ∀ t, t.toNat < 2 ^ 64 - 1 →
          ((∃ l ∈ book.orders side, l ∉ (book.withoutExpired t).orders side) ↔
            ∃ bit, b.expiry bit ≤ t)) ∧
      ∀ (book : OrderBook) (s t : UInt64),
        (book.withoutExpired s).withoutExpired t = book.withoutExpired (max s t) := by
  refine ⟨fun i b bit t here before => expiry_le_iff accepted here bit before, ?_,
    withoutExpired_withoutExpired⟩
  exact fun bids asks book made part two => drops_iff_root made part accepted two

/-- An ask that never expires and one that does at second 110. -/
def expiring : List Leaf :=
  [orderAt 9 0, { orderAt 5 1 with timestamp := ⟨100⟩, timeInForce := 10 }]

theorem ranking_expiring : ranking expiring = expiring.reverse := by
  have kept : firstOfEachKey expiring = expiring := by decide
  have perm := List.mergeSort_perm (firstOfEachKey expiring) fun a b => a.orderId ≤ b.orderId
  rw [kept] at perm
  refine eq_of_sorted ?_ (sorted_ranking expiring) (by decide)
  rw [ranking, kept]
  exact perm.trans (List.reverse_perm expiring).symm

/-- The root tells that there is nothing to leave out at second 109, and something at 110. -/
theorem expiries_of_expiring :
    ∃ built book b, ofLeaves .ask expiring = .ok built ∧ ofSides noBids built = .ok book ∧
      built.nodes[built.root.toNat]? = some (.inner b) ∧
      (¬∃ bit, b.expiry bit ≤ 109) ∧ (∃ bit, b.expiry bit ≤ 110) ∧
      (∃ bit l, Under built.nodes (b.child bit) l ∧ l.isValid 110 = false) ∧
      (book.withoutExpired 110).withoutExpired 109 = book.withoutExpired 110 := by
  have few : ¬maxOrders < (ranking expiring).length := by
    rw [ranking_expiring]
    decide
  obtain ⟨built, accepted⟩ : ∃ built, ofLeaves .ask expiring = .ok built := by
    rw [ofLeaves, ranked_eq_ranking, if_neg few]
    exact ⟨_, rfl⟩
  obtain ⟨side, fresh, -⟩ := fresh_of_ofLeaves accepted
  have nothing : noBids.walk false = ⟨[], none⟩ := walk_of_isEmpty rfl false
  obtain ⟨book, made, shown⟩ : ∃ book, ofSides noBids built = .ok book ∧
      ∀ l, l ∈ book.orders .ask ↔ l ∈ expiring := by
    refine ⟨_, ofSides_of_walks rfl side nothing fresh.walk, fun l => ?_⟩
    rw [orders, List.mem_mergeSort, ranking_expiring, List.mem_reverse]
  obtain ⟨exact, root, later⟩ := expiries_exact accepted
  obtain ⟨b, inner, drops⟩ := root noBids built book made rfl (by
    rw [fresh.leafCount, ranking_expiring]
    decide)
  have valid : ∀ l ∈ expiring, l.isValid 109 = true := by decide
  have expired : ∃ l ∈ expiring, l.isValid 110 = false := by decide
  have some : ∃ bit, b.expiry bit ≤ 110 := by
    rw [← drops 110 (by decide), drops_iff]
    simpa only [shown] using expired
  refine ⟨built, book, b, accepted, made, inner, ?_, some, ?_, later book 110 109⟩
  · rw [← drops 109 (by decide), drops_iff]
    rintro ⟨l, member, invalid⟩
    rw [valid l ((shown l).mp member)] at invalid
    cases invalid
  · obtain ⟨bit, passed⟩ := some
    exact ⟨bit, (exact _ b bit 110 inner (by decide)).mp passed⟩

end OrderBook
end PerpDex
