import Mathlib.Data.List.Nodup
import Mathlib.Data.List.Perm.Subperm
import PerpDex.Proofs.Book.Keys
import PerpDex.Book.Walk

/-! Trees that stand in the slots of an arena, wherever the slots are. A book side holds such a tree
if the slots hold its nodes and the keys are ranked by their critical bits; what the other slots
hold does not matter. -/
namespace PerpDex

inductive SlotTree where
  | leaf (slot : Handle) (leaf : Leaf)
  | branch (slot : Handle) (branch : Branch) (left right : SlotTree)

def leafAt (nodes : List Node) (slot : Handle) : Option Leaf :=
  match nodes[slot.toNat]? with
  | some (.leaf l) => some l
  | _ => none

namespace SlotTree

variable {nodes : List Node} {tree : SlotTree}

def root : SlotTree → Handle
  | leaf slot _ => slot
  | branch slot .. => slot

/-- The slots of the tree, each branch before what is below it. -/
def slots : SlotTree → List Handle
  | leaf slot _ => [slot]
  | branch slot _ left right => slot :: (left.slots ++ right.slots)

def leaves : SlotTree → List Leaf
  | leaf _ l => [l]
  | branch _ _ left right => left.leaves ++ right.leaves

def branches : SlotTree → List Branch
  | leaf .. => []
  | branch _ b left right => b :: (left.branches ++ right.branches)

/-- Every slot of the tree holds its node, and branches name the roots of their subtrees. -/
def Stored (nodes : List Node) : SlotTree → Prop
  | leaf slot l => nodes[slot.toNat]? = some (.leaf l)
  | branch slot b left right =>
    nodes[slot.toNat]? = some (.inner b) ∧ b.left = left.root ∧ b.right = right.root ∧
      left.Stored nodes ∧ right.Stored nodes

/-- The orders below a child of a branch: their keys have the prefix of the branch, and behind it
the bit of the child. -/
def Below (b : Branch) (bit : Bool) (leaves : List Leaf) : Prop :=
  ∀ l ∈ leaves, SharePrefix b.prefixLength.toNat l.orderId b.key ∧
    l.orderId.getMsbD b.prefixLength.toNat = bit

instance (b : Branch) (bit : Bool) (leaves : List Leaf) : Decidable (Below b bit leaves) :=
  inferInstanceAs (Decidable (∀ l ∈ leaves, _ ∧ _))

instance decidableStored (nodes : List Node) : (tree : SlotTree) → Decidable (tree.Stored nodes)
  | leaf _ _ => inferInstanceAs (Decidable (_ = _))
  | branch _ _ left right =>
    have := decidableStored nodes left
    have := decidableStored nodes right
    inferInstanceAs (Decidable (_ ∧ _ ∧ _ ∧ _ ∧ _))

/-- Below every branch the first bit not shared tells the left orders from the right ones. -/
def Critbit : SlotTree → Prop
  | leaf .. => True
  | branch _ b left right =>
    b.prefixLength.toNat ≤ 127 ∧ Below b false left.leaves ∧ Below b true right.leaves ∧
      left.Critbit ∧ right.Critbit

/-- The prefixes grow longer from every branch to any branch below it. -/
def Deepening : SlotTree → Prop
  | leaf .. => True
  | branch _ b left right =>
    (∀ below ∈ left.branches ++ right.branches, b.prefixLength < below.prefixLength) ∧
      left.Deepening ∧ right.Deepening

instance decidableCritbit : (tree : SlotTree) → Decidable tree.Critbit
  | leaf _ _ => .isTrue trivial
  | branch _ _ left right =>
    have := decidableCritbit left
    have := decidableCritbit right
    inferInstanceAs (Decidable (_ ∧ _ ∧ _ ∧ _ ∧ _))

theorem root_mem_slots (tree : SlotTree) : tree.root ∈ tree.slots := by
  cases tree <;> simp [root, slots]

theorem Stored.slot_lt (stored : tree.Stored nodes) {slot : Handle} (member : slot ∈ tree.slots) :
    slot.toNat < nodes.length := by
  induction tree with
  | leaf own l =>
    obtain rfl := List.mem_singleton.mp member
    exact (List.getElem?_eq_some_iff.mp stored).1
  | branch own b left right ihLeft ihRight =>
    obtain ⟨here, -, -, inLeft, inRight⟩ := stored
    rcases List.mem_cons.mp member with rfl | below
    · exact (List.getElem?_eq_some_iff.mp here).1
    · rcases List.mem_append.mp below with low | high
      · exact ihLeft inLeft low
      · exact ihRight inRight high

/-- A tree of distinct slots has no more of them than the arena. -/
theorem Stored.length_slots_le (stored : tree.Stored nodes) (distinct : tree.slots.Nodup) :
    tree.slots.length ≤ nodes.length := by
  have numbers : (tree.slots.map UInt32.toNat).Nodup :=
    List.Nodup.map (fun a b same => UInt32.toNat_inj.mp same) distinct
  have inside : tree.slots.map UInt32.toNat ⊆ List.range nodes.length := by
    intro number member
    obtain ⟨slot, own, rfl⟩ := List.mem_map.mp member
    exact List.mem_range.mpr (stored.slot_lt own)
  simpa using (numbers.subperm inside).length_le

theorem Stored.filterMap_slots (stored : tree.Stored nodes) :
    tree.slots.filterMap (leafAt nodes) = tree.leaves := by
  induction tree with
  | leaf slot l =>
    have here : leafAt nodes slot = some l := by rw [leafAt, stored]
    simp [slots, leaves, here]
  | branch slot b left right ihLeft ihRight =>
    obtain ⟨here, -, -, inLeft, inRight⟩ := stored
    have none : leafAt nodes slot = none := by rw [leafAt, here]
    simp [slots, leaves, none, ihLeft inLeft, ihRight inRight]

/-- The orders of a ranked tree stand in strictly ascending order of their keys. -/
theorem Critbit.sorted (critbit : tree.Critbit) :
    tree.leaves.Pairwise fun a b => a.orderId < b.orderId := by
  induction tree with
  | leaf => exact List.pairwise_singleton ..
  | branch slot b left right ihLeft ihRight =>
    obtain ⟨-, below, above, onLeft, onRight⟩ := critbit
    refine List.pairwise_append.mpr ⟨ihLeft onLeft, ihRight onRight, ?_⟩
    intro low inLeft high inRight
    have shared := (below low inLeft).1.trans (above high inRight).1.symm
    exact shared.lt (below low inLeft).2 (above high inRight).2

end SlotTree

namespace BookSide

inductive Reachable (book : BookSide) : Handle → Prop where
  | root : Reachable book book.root
  | child {handle : Handle} {b : Branch} (bit : Bool) : Reachable book handle →
      book.nodes[handle.toNat]? = some (.inner b) → Reachable book (b.child bit)

/-- The arena holds this tree, which has an order, in distinct slots. -/
structure Holds (book : BookSide) (tree : SlotTree) : Prop where
  nonempty : book.leafCount ≠ 0
  root : tree.root = book.root
  stored : tree.Stored book.nodes
  distinct : tree.slots.Nodup
  critbit : tree.Critbit

variable {book : BookSide}

theorem reachable_of_mem_slots {tree : SlotTree} (stored : tree.Stored book.nodes)
    (start : book.Reachable tree.root) {slot : Handle} (member : slot ∈ tree.slots) :
    book.Reachable slot := by
  induction tree with
  | leaf own l =>
    obtain rfl := List.mem_singleton.mp member
    exact start
  | branch own b left right ihLeft ihRight =>
    obtain ⟨here, toLeft, toRight, inLeft, inRight⟩ := stored
    rcases List.mem_cons.mp member with rfl | below
    · exact start
    · rcases List.mem_append.mp below with low | high
      · exact ihLeft inLeft (toLeft ▸ start.child false here) low
      · exact ihRight inRight (toRight ▸ start.child true here) high

theorem child_mem_slots {tree : SlotTree} (stored : tree.Stored book.nodes) {slot : Handle}
    {b : Branch} (member : slot ∈ tree.slots) (here : book.nodes[slot.toNat]? = some (.inner b))
    (bit : Bool) : b.child bit ∈ tree.slots := by
  induction tree with
  | leaf own l =>
    obtain rfl := List.mem_singleton.mp member
    rw [SlotTree.Stored, here] at stored
    cases stored
  | branch own b' left right ihLeft ihRight =>
    obtain ⟨there, toLeft, toRight, inLeft, inRight⟩ := stored
    rw [SlotTree.slots, List.mem_cons, List.mem_append] at member ⊢
    rcases member with rfl | low | high
    · rw [here] at there
      cases there
      cases bit with
      | false =>
        have toLeft : b.child false = left.root := toLeft
        exact .inr (.inl (toLeft ▸ left.root_mem_slots))
      | true =>
        have toRight : b.child true = right.root := toRight
        exact .inr (.inr (toRight ▸ right.root_mem_slots))
    · exact .inr (.inl (ihLeft inLeft low))
    · exact .inr (.inr (ihRight inRight high))

theorem Holds.reachable_iff {tree : SlotTree} (holds : book.Holds tree) (slot : Handle) :
    book.Reachable slot ↔ slot ∈ tree.slots := by
  constructor
  · intro reached
    induction reached with
    | root => exact holds.root ▸ tree.root_mem_slots
    | child bit _ here ih => exact child_mem_slots holds.stored ih here bit
  · exact reachable_of_mem_slots holds.stored (holds.root ▸ .root)

end BookSide
end PerpDex
