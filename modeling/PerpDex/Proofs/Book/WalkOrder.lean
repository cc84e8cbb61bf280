import PerpDex.Proofs.Book.SlotTree
import PerpDex.Proofs.Book.Unfolding

/-! The walk of a book side meets the orders of its tree by key. The walk knows slots only and a
bound on how many it may visit; a tree takes as many visits as it has slots, and as its slots are
distinct, there are enough. -/
namespace PerpDex

def SlotTree.leavesBy (tree : SlotTree) (ascending : Bool) : List Leaf :=
  if ascending then tree.leaves else tree.leaves.reverse

/-- A tree takes a visit for each of its slots. -/
theorem SlotTree.Stored.unfolds {nodes : List Node} {tree : SlotTree} (stored : tree.Stored nodes) :
    Unfolds nodes tree.root tree.slots.length tree.leaves := by
  induction tree with
  | leaf slot l => exact .leaf stored
  | branch slot b left right ihLeft ihRight =>
    obtain ⟨here, toLeft, toRight, inLeft, inRight⟩ := stored
    have below := Unfolds.branch here (toLeft ▸ ihLeft inLeft) (toRight ▸ ihRight inRight)
    simpa only [root, leaves, slots, List.length_cons, List.length_append] using below

namespace BookSide

variable {book : BookSide} {tree : SlotTree}

theorem Holds.walk_eq (holds : book.Holds tree) (ascending : Bool) :
    book.walk ascending = ⟨tree.leavesBy ascending, none⟩ := by
  have enough := holds.stored.length_slots_le holds.distinct
  have filled : book.isEmpty = false := by simp [isEmpty, holds.nonempty]
  have unfolds := holds.stored.unfolds
  rw [holds.root] at unfolds
  exact walk_of_unfolds filled unfolds enough ascending

/-- Wherever its nodes are placed, a tree is walked without a defect: upwards in strictly ascending
order of the keys, downwards the other way round. What is met are the orders in the slots reached
from the root, each slot once. -/
theorem walk_of_tree (book : BookSide) (tree : SlotTree) (holds : book.Holds tree) :
    (∀ slot, book.Reachable slot ↔ slot ∈ tree.slots) ∧
      tree.slots.filterMap (leafAt book.nodes) = tree.leaves ∧
      book.walk true = ⟨tree.leaves, none⟩ ∧
      (book.walk true).leaves.Pairwise (fun a b => a.orderId < b.orderId) ∧
      book.walk false = ⟨tree.leaves.reverse, none⟩ ∧
      (book.walk false).leaves.Pairwise (fun a b => b.orderId < a.orderId) := by
  have up := holds.walk_eq true
  have down := holds.walk_eq false
  refine ⟨holds.reachable_iff, holds.stored.filterMap_slots, up, ?_, down, ?_⟩
  · rw [up]
    exact holds.critbit.sorted
  · rw [down]
    exact List.pairwise_reverse.mpr holds.critbit.sorted

def orderAt (price sequence : UInt64) : Leaf := { (default : Leaf) with key := ⟨price, sequence⟩ }

def branchAt (prefixLength : UInt32) (price sequence : UInt64) (left right : Handle) : Branch :=
  { prefixLength, key := OrderKey.toWord ⟨price, sequence⟩, left, right,
    leftExpiry := 0, rightExpiry := 0 }

/-- Three orders in slots out of order, between a released slot, an unused one and a branch to
nowhere that nothing points to. -/
def scattered : BookSide where
  header := Header.new .bids 0 true
  side := .bid
  bumpIndex := 8
  freeListLength := 1
  freeListHead := 0
  root := 5
  leafCount := 3
  nodes := [.free 3, .leaf (orderAt 9 0), .inner (branchAt 200 7 7 2 99),
    .inner (branchAt 126 5 1 6 4), .leaf (orderAt 5 2), .inner (branchAt 60 5 1 3 1),
    .leaf (orderAt 5 1), .uninitialized]

def scatteredTree : SlotTree :=
  .branch 5 (branchAt 60 5 1 3 1)
    (.branch 3 (branchAt 126 5 1 6 4) (.leaf 6 (orderAt 5 1)) (.leaf 4 (orderAt 5 2)))
    (.leaf 1 (orderAt 9 0))

theorem scattered_holds : scattered.Holds scatteredTree where
  nonempty := by decide
  root := rfl
  stored := by decide
  distinct := by decide
  critbit := by decide

theorem walk_of_scattered :
    scattered.Holds scatteredTree ∧
      scattered.walk true = ⟨[orderAt 5 1, orderAt 5 2, orderAt 9 0], none⟩ ∧
      scattered.walk false = ⟨[orderAt 9 0, orderAt 5 2, orderAt 5 1], none⟩ := by
  obtain ⟨-, -, up, -, down, -⟩ := walk_of_tree scattered scatteredTree scattered_holds
  exact ⟨scattered_holds, up, down⟩

end BookSide
end PerpDex
