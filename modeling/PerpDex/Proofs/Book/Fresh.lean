import PerpDex.Proofs.Book.Construction
import PerpDex.Proofs.Book.Ranking
import PerpDex.Proofs.Book.WalkOrder

/-! Fresh book sides. The orders of a list are ranked and laid out as a tree in the first slots; the
slots behind the tree stay unused. A list fails only if it has too many keys for the slots. -/
namespace PerpDex

namespace Tree

theorem tag_of_mem_nodes (tree : Tree) {start : Nat} {node : Node}
    (member : node ∈ tree.nodes start) : node.tag = .inner ∨ node.tag = .leaf := by
  induction tree generalizing start with
  | leaf l =>
    obtain rfl := List.mem_singleton.mp member
    exact .inr rfl
  | branch _ left right ihLeft ihRight =>
    rcases List.mem_cons.mp member with rfl | below
    · exact .inl rfl
    · rcases List.mem_append.mp below with low | high
      · exact ihLeft low
      · exact ihRight high

theorem count_leaf_nodes (tree : Tree) (start : Nat) :
    ((tree.nodes start).map Node.tag).count .leaf = tree.leaves.length := by
  induction tree generalizing start with
  | leaf => rfl
  | branch _ left right ihLeft ihRight =>
    rw [nodes, List.map_cons, List.map_append, List.count_cons_of_ne (by simp [Node.tag]),
      List.count_append, ihLeft, ihRight, leaves, List.length_append]

theorem count_inner_nodes (tree : Tree) (start : Nat) :
    ((tree.nodes start).map Node.tag).count .inner = tree.leaves.length - 1 := by
  have total : ((tree.nodes start).map Node.tag).count .inner + 1 = tree.leaves.length := by
    induction tree generalizing start with
    | leaf => rfl
    | branch _ left right ihLeft ihRight =>
      rw [nodes, List.map_cons, List.map_append, Node.tag, List.count_cons_self, List.count_append,
        leaves, List.length_append, ← ihLeft (start + 1), ← ihRight (start + 1 + left.size)]
      omega
  omega

/-- The slots of a tree are distinct as long as handles can tell them apart. -/
theorem distinct_place (tree : Tree) {start : Nat} (fits : start + tree.size ≤ 2 ^ 32) :
    (tree.place start).slots.Nodup := by
  rw [slots_place]
  refine List.Nodup.map_on ?_ List.nodup_range'
  intro a inA b inB same
  have below (n : Nat) (member : n ∈ List.range' start tree.size) : n < 2 ^ 32 := by
    have := (List.mem_range'_1.mp member).2
    omega
  rw [← toNat_slot (below a inA), ← toNat_slot (below b inB), same]

end Tree

namespace BookSide

structure Fresh (book : BookSide) (orders : List Leaf) : Prop where
  leafCount : book.leafCount.toNat = orders.length
  capacity : book.nodes.length = 1024
  bump : book.bumpIndex.toNat = 2 * orders.length - 1
  used : ∀ slot < book.bumpIndex.toNat, ∃ node, book.nodes[slot]? = some node ∧
    (node.tag = .inner ∨ node.tag = .leaf)
  unused : ∀ slot, book.bumpIndex.toNat ≤ slot → slot < 1024 →
    book.nodes[slot]? = some .uninitialized
  leaves : (book.nodes.map Node.tag).count .leaf = orders.length
  branches : (book.nodes.map Node.tag).count .inner = orders.length - 1
  walk : book.walk true = ⟨orders, none⟩
  reached : orders ≠ [] → ∀ slot, book.Reachable slot ↔ slot.toNat < book.bumpIndex.toNat
  /-- The tree takes every used slot once. -/
  tree : orders ≠ [] → ∃ tree, book.Holds tree ∧ tree.leaves = orders ∧ tree.Deepening ∧
    tree.slots = (List.range book.bumpIndex.toNat).map UInt32.ofNat

variable {book : BookSide} {orders : List Leaf}

theorem length_freshNodes (ascending : Tree.Ascending orders) :
    (freshNodes orders).length = 2 * orders.length - 1 := by
  cases orders with
  | nil => rfl
  | cons head rest =>
    have size := (Tree.ofSorted head rest).size_eq
    rw [Tree.leaves_ofSorted ascending] at size
    rw [freshNodes, Tree.length_nodes]
    omega

theorem tag_of_mem_freshNodes {node : Node} (member : node ∈ freshNodes orders) :
    node.tag = .inner ∨ node.tag = .leaf := by
  cases orders with
  | nil => cases member
  | cons head rest => exact Tree.tag_of_mem_nodes _ member

theorem count_leaf_freshNodes (ascending : Tree.Ascending orders) :
    ((freshNodes orders).map Node.tag).count .leaf = orders.length := by
  cases orders with
  | nil => rfl
  | cons head rest => rw [freshNodes, Tree.count_leaf_nodes, Tree.leaves_ofSorted ascending]

theorem count_inner_freshNodes (ascending : Tree.Ascending orders) :
    ((freshNodes orders).map Node.tag).count .inner = orders.length - 1 := by
  cases orders with
  | nil => rfl
  | cons head rest => rw [freshNodes, Tree.count_inner_nodes, Tree.leaves_ofSorted ascending]

/-- The arena of a fresh book side holds the tree of its orders from slot 0 on. -/
theorem holds_of_freshNodes {head : Leaf} {rest : List Leaf} {behind : List Node}
    (ascending : Tree.Ascending (head :: rest)) (nonempty : book.leafCount ≠ 0)
    (root : book.root = 0) (laid : book.nodes = freshNodes (head :: rest) ++ behind)
    (fits : (freshNodes (head :: rest)).length ≤ 2 ^ 32) :
    book.Holds ((Tree.ofSorted head rest).place 0) := by
  rw [freshNodes, Tree.length_nodes] at fits
  refine ⟨nonempty, ?_, ?_, ?_, Tree.critbit_place ascending 0⟩
  · rw [Tree.root_place, root]
    rfl
  · refine Tree.stored_place _ (by omega) fun i inside => ?_
    rw [laid, Nat.zero_add, freshNodes]
    exact List.getElem?_append_left (by simpa using inside)
  · exact Tree.distinct_place _ (by omega)

/-- A book side is fresh if its arena is the tree of its orders with unused slots behind it. -/
theorem fresh_of_freshNodes (ascending : Tree.Ascending orders) (few : orders.length ≤ 512)
    (count : book.leafCount = UInt64.ofNat orders.length)
    (bump : book.bumpIndex = UInt64.ofNat (freshNodes orders).length) (root : book.root = 0)
    (laid : book.nodes = freshNodes orders ++
      List.replicate (1024 - (freshNodes orders).length) .uninitialized) :
    book.Fresh orders := by
  have length := length_freshNodes ascending
  have bumpIndex : book.bumpIndex.toNat = (freshNodes orders).length := by
    rw [bump, UInt64.toNat_ofNat', Nat.mod_eq_of_lt (by omega)]
  have leafCount : book.leafCount.toNat = orders.length := by
    rw [count, UInt64.toNat_ofNat', Nat.mod_eq_of_lt (by omega)]
  have held : orders ≠ [] → ∃ tree, book.Holds tree ∧ tree.leaves = orders ∧ tree.Deepening ∧
      tree.slots = (List.range book.bumpIndex.toNat).map UInt32.ofNat := by
    intro some
    obtain ⟨head, rest, rfl⟩ := List.exists_cons_of_ne_nil some
    have nonempty : book.leafCount ≠ 0 := by
      intro zero
      rw [zero] at leafCount
      cases leafCount
    refine ⟨_, holds_of_freshNodes ascending nonempty root laid (by omega), ?_,
      Tree.deepening_place ascending 0, ?_⟩
    · rw [Tree.leaves_place, Tree.leaves_ofSorted ascending]
    · rw [Tree.slots_place, bumpIndex, freshNodes, Tree.length_nodes, List.range_eq_range']
  constructor
  case leafCount => exact leafCount
  case capacity =>
    rw [laid, List.length_append, List.length_replicate]
    omega
  case bump => rw [bumpIndex, length]
  case used =>
    intro slot below
    rw [bumpIndex] at below
    refine ⟨(freshNodes orders)[slot], ?_, tag_of_mem_freshNodes (List.getElem_mem below)⟩
    rw [laid, List.getElem?_append_left below, List.getElem?_eq_getElem below]
  case unused =>
    intro slot above inside
    rw [bumpIndex] at above
    rw [laid, List.getElem?_append_right above, List.getElem?_replicate_of_lt (by omega)]
  case leaves =>
    rw [laid, List.map_append, List.count_append, count_leaf_freshNodes ascending,
      List.map_replicate, List.count_replicate]
    rfl
  case branches =>
    rw [laid, List.map_append, List.count_append, count_inner_freshNodes ascending,
      List.map_replicate, List.count_replicate]
    rfl
  case walk =>
    cases orders with
    | nil =>
      have empty : book.isEmpty = true := by
        rw [isEmpty, count]
        rfl
      simp [BookSide.walk, empty, walkFrom, Walk.finished]
    | cons head rest =>
      obtain ⟨tree, holds, leaves, -⟩ := held (by simp)
      rw [holds.walk_eq, ← leaves]
      rfl
  case reached =>
    intro some slot
    obtain ⟨tree, holds, -, -, slots⟩ := held some
    rw [holds.reachable_iff, slots, List.mem_map]
    constructor
    · rintro ⟨i, below, rfl⟩
      rw [List.mem_range] at below
      rwa [Tree.toNat_slot (by omega)]
    · intro below
      exact ⟨slot.toNat, List.mem_range.mpr below, UInt32.ofNat_toNat⟩
  case tree => exact held

/-- Of each key the first order of the list enters the book. The list fails exactly if that leaves
more than 512 orders; otherwise these stand in the first slots as a tree that is ranked by its
critical bits, and are walked in ascending order of the keys. -/
theorem ofLeaves_fresh (side : Side) (leaves : List Leaf) :
    (∀ defect, ofLeaves side leaves = .error defect ↔
      512 < (ranking leaves).length ∧ defect = .tooManyOrders (ranking leaves).length 1024) ∧
    ((ranking leaves).length ≤ 512 →
      ∃ book, ofLeaves side leaves = .ok book ∧ book.side = side ∧ book.Fresh (ranking leaves)) := by
  rw [ofLeaves, ranked_eq_ranking, show maxOrders = 512 from rfl]
  by_cases many : 512 < (ranking leaves).length
  · rw [if_pos many]
    refine ⟨fun defect => ?_, fun few => absurd many (Nat.not_lt.mpr few)⟩
    constructor
    · intro failed
      cases failed
      exact ⟨many, rfl⟩
    · rintro ⟨-, rfl⟩
      rfl
  · rw [if_neg many]
    refine ⟨fun defect => ?_, fun few => ⟨_, rfl, rfl, ?_⟩⟩
    · constructor
      · intro failed
        cases failed
      · rintro ⟨more, -⟩
        exact absurd more many
    · exact fresh_of_freshNodes (sorted_ranking leaves) few rfl rfl rfl rfl

def repeated : List Leaf :=
  [orderAt 9 0, orderAt 5 2, { orderAt 5 2 with quantity := 7 }, orderAt 5 1]

theorem ranking_repeated : ranking repeated = [orderAt 5 1, orderAt 5 2, orderAt 9 0] := by
  have kept : firstOfEachKey repeated = [orderAt 9 0, orderAt 5 2, orderAt 5 1] := by decide
  have perm := List.mergeSort_perm (firstOfEachKey repeated) fun a b => a.orderId ≤ b.orderId
  rw [kept] at perm
  refine eq_of_sorted ?_ (sorted_ranking repeated) (by decide)
  rw [ranking, kept]
  exact perm.trans (by decide)

theorem ofLeaves_repeated :
    (ranking repeated).length ≤ 512 ∧
      ∃ book, ofLeaves .bid repeated = .ok book ∧ book.bumpIndex.toNat = 5 ∧
        book.walk true = ⟨[orderAt 5 1, orderAt 5 2, orderAt 9 0], none⟩ := by
  have few : (ranking repeated).length ≤ 512 := by
    rw [ranking_repeated]
    decide
  obtain ⟨book, built, -, fresh⟩ := (ofLeaves_fresh .bid repeated).2 few
  rw [ranking_repeated] at fresh
  exact ⟨few, book, built, fresh.bump, fresh.walk⟩

end BookSide
end PerpDex
