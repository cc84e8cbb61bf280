import PerpDex.Proofs.Book.WalkOrder

/-! The orders at the ends of a tree. The lookup that follows children of one kind finds the order
that a walk meets first, so the best order of a side is the first of its orders. -/
namespace PerpDex

namespace SlotTree

theorem leavesBy_ne_nil (tree : SlotTree) (ascending : Bool) : tree.leavesBy ascending ≠ [] := by
  have some : tree.leaves ≠ [] := by
    induction tree with
    | leaf slot l => exact List.cons_ne_nil l []
    | branch slot b left right ihLeft _ => exact List.append_ne_nil_of_left_ne_nil ihLeft _
  cases ascending
  · exact List.reverse_ne_nil_iff.mpr some
  · exact some

/-- The first order of a walk is below the child that the walk visits first. -/
theorem head?_leavesBy_branch (slot : Handle) (b : Branch) (left right : SlotTree)
    (ascending : Bool) :
    ((branch slot b left right).leavesBy ascending).head? =
      ((if ascending then left else right).leavesBy ascending).head? := by
  cases ascending
  · rw [leavesBy, if_neg Bool.false_ne_true, leaves, List.reverse_append]
    exact List.head?_append_of_ne_nil _ (leavesBy_ne_nil right false)
  · exact List.head?_append_of_ne_nil _ (leavesBy_ne_nil left true)

end SlotTree

namespace BookSide

variable {book : BookSide} {tree : SlotTree} {nodes : List Node}

/-- Following the children that a walk visits first leads to the first order of the walk. -/
theorem extremeFrom_of_stored (stored : tree.Stored nodes) (ascending : Bool) {visits : Nat}
    (enough : tree.slots.length ≤ visits) :
    extremeFrom nodes (!ascending) visits tree.root = .ok (tree.leavesBy ascending).head? := by
  induction tree generalizing visits with
  | leaf slot l =>
    have one : 1 ≤ visits := enough
    obtain ⟨more, rfl⟩ := Nat.exists_eq_add_of_le' one
    have here : nodes[slot.toNat]? = some (.leaf l) := stored
    simp only [extremeFrom, SlotTree.root, here]
    cases ascending <;> rfl
  | branch slot b left right ihLeft ihRight =>
    obtain ⟨here, toLeft, toRight, inLeft, inRight⟩ := stored
    rw [SlotTree.slots, List.length_cons, List.length_append] at enough
    obtain ⟨more, rfl⟩ := Nat.exists_eq_add_of_le' (Nat.le_of_add_left_le enough)
    simp only [SlotTree.head?_leavesBy_branch, extremeFrom, SlotTree.root, here]
    cases ascending with
    | false =>
      have child : b.child (!false) = right.root := toRight
      rw [child]
      exact ihRight inRight (by omega)
    | true =>
      have child : b.child (!true) = left.root := toLeft
      rw [child]
      exact ihLeft inLeft (by omega)

theorem walk_of_isEmpty (empty : book.isEmpty = true) (ascending : Bool) :
    book.walk ascending = ⟨[], none⟩ := by
  rw [walk, if_pos empty]
  cases book.nodes.length <;> rfl

/-- The side has no orders, or a tree of them. -/
def Formed (book : BookSide) : Prop := book.leafCount = 0 ∨ ∃ tree, book.Holds tree

theorem Formed.exists_ranked (formed : book.Formed) (ascending : Bool) :
    ∃ ranked, book.walk ascending = ⟨ranked, none⟩ ∧
      book.extreme (!ascending) = .ok ranked.head? ∧
      ranked.Pairwise fun a b =>
        if ascending then a.orderId < b.orderId else b.orderId < a.orderId := by
  rcases formed with none | ⟨tree, holds⟩
  · have empty : book.isEmpty = true := by simp [isEmpty, none]
    refine ⟨[], walk_of_isEmpty empty ascending, ?_, .nil⟩
    rw [extreme, if_pos empty]
    rfl
  · have filled : book.isEmpty = false := by simp [isEmpty, holds.nonempty]
    have enough := holds.stored.length_slots_le holds.distinct
    refine ⟨tree.leavesBy ascending, holds.walk_eq ascending, ?_, ?_⟩
    · rw [extreme, if_neg (by simp [filled]), ← holds.root,
        extremeFrom_of_stored holds.stored ascending enough]
    · have sorted := holds.critbit.sorted
      cases ascending
      · exact List.pairwise_reverse.mpr sorted
      · exact sorted

/-- The walk of a side gives its orders and the best of them. -/
theorem Formed.orders_and_best (formed : book.Formed) :
    ∃ ranked, book.walk (book.side == .ask) = ⟨ranked, none⟩ ∧ book.orders = .ok ranked ∧
      book.best = .ok ranked.head? ∧ ranked.Pairwise fun a b =>
        if book.side == .ask then a.orderId < b.orderId else b.orderId < a.orderId := by
  obtain ⟨ranked, walk, extreme, sorted⟩ := formed.exists_ranked (book.side == .ask)
  have last : (book.side == .bid) = !(book.side == .ask) := by cases book.side <;> rfl
  exact ⟨ranked, walk, congrArg Walk.result walk, by rw [best, last, extreme], sorted⟩

end BookSide
end PerpDex
