import PerpDex.Proofs.Book.Cursor
import PerpDex.Proofs.Book.Extremes

/-! The orders at the ends of a book side against the walks, on any arena. The lookup follows one
path of slots without a stack. As long as it goes down it visits the slots that the walk visits, with
the same count, so they end with the same order or the same report. Only an unused slot at the end
of the path tells them apart: the lookup reports it, and the walk goes on behind it. -/
namespace PerpDex

/-- Following the children for the bit `last` leads from a slot to another one in so many steps. -/
inductive Descends (nodes : List Node) (last : Bool) : Handle → Nat → Handle → Prop where
  | here {slot : Handle} : Descends nodes last slot 0 slot
  | down {slot target : Handle} {b : Branch} {steps : Nat} : nodes[slot.toNat]? = some (.inner b) →
      Descends nodes last (b.child last) steps target → Descends nodes last slot (steps + 1) target

/-- The path of the children for the bit `last` ends within so many slots, at one that is unused. -/
structure DeadEnd (nodes : List Node) (last : Bool) (visits : Nat) (start slot : Handle)
    (node : Node) : Prop where
  descends : ∃ steps < visits, Descends nodes last start steps slot
  here : nodes[slot.toNat]? = some node
  notInner : node.tag ≠ .inner
  notLeaf : node.tag ≠ .leaf

variable {nodes : List Node} {last : Bool} {visits : Nat} {start slot : Handle}
  {node : Node}

theorem DeadEnd.down {b : Branch} (inner : nodes[start.toNat]? = some (.inner b))
    (ends : DeadEnd nodes last visits (b.child last) slot node) :
    DeadEnd nodes last (visits + 1) start slot node := by
  obtain ⟨⟨steps, less, descends⟩, here, notInner, notLeaf⟩ := ends
  exact ⟨⟨steps + 1, by omega, .down inner descends⟩, here, notInner, notLeaf⟩

namespace BookSide

theorem extremeFrom_unused (here : nodes[slot.toNat]? = some node) (notInner : node.tag ≠ .inner)
    (notLeaf : node.tag ≠ .leaf) :
    extremeFrom nodes last (visits + 1) slot = .error (.unusedOnPath node.tag slot) := by
  rw [extremeFrom, here]
  cases node with
  | inner => exact absurd rfl notInner
  | leaf => exact absurd rfl notLeaf
  | uninitialized | free | lastFree => rfl

/-- The lookup reports the unused slot at the end of its path. -/
theorem extremeFrom_of_deadEnd (ends : DeadEnd nodes last visits start slot node) :
    extremeFrom nodes last visits start = .error (.unusedOnPath node.tag slot) := by
  obtain ⟨⟨steps, less, descends⟩, here, notInner, notLeaf⟩ := ends
  induction descends generalizing visits with
  | here =>
    obtain ⟨more, rfl⟩ := Nat.exists_eq_add_of_lt less
    rw [Nat.zero_add]
    exact extremeFrom_unused here notInner notLeaf
  | down inner _ ih =>
    cases visits with
    | zero => omega
    | succ visits =>
      rw [extremeFrom, inner]
      exact ih here (by omega)

/-- Without such an end the lookup answers with the first item of the walk, whatever else is still
on the stack of the walk. -/
theorem extremeFrom_eq_first (used : ∀ slot node, ¬DeadEnd nodes last visits start slot node)
    (stack : List Handle) : extremeFrom nodes last visits start =
      (walkFrom nodes (!last) visits (start :: stack)).items.head?.sequence := by
  induction visits generalizing start stack with
  | zero => rfl
  | succ visits ih =>
    rw [extremeFrom, walkFrom]
    cases here : nodes[start.toNat]? with
    | none => rfl
    | some node =>
      cases node with
      | leaf l => rfl
      | uninitialized | free | lastFree =>
        exact absurd ⟨⟨0, Nat.succ_pos _, .here⟩, here, by simp [Node.tag], by simp [Node.tag]⟩
          (used start _)
      | inner b =>
        -- The walk keeps the other child for later, below which the lookup never looks.
        simp only [Bool.not_not]
        exact ih (fun slot node ends => used slot node (ends.down here)) _

theorem extremeFrom_ne_none (nodes : List Node) (last : Bool) (visits : Nat) (start : Handle) :
    extremeFrom nodes last visits start ≠ .ok none := by
  fun_induction extremeFrom nodes last visits start with
  | case3 _ _ _ _ ih => exact ih
  | case1 | case2 | case4 | case5 => simp

theorem next_cursor (book : BookSide) (ascending : Bool) :
    (book.cursor ascending).next.1 = (book.walk ascending).items.head? := by
  rw [(Cursor.next_rest _).1, rest_cursor]

variable {book : BookSide}

theorem extreme_of_filled (filled : book.leafCount ≠ 0) :
    book.extreme last = extremeFrom book.nodes last book.nodes.length book.root := by
  rw [extreme, if_neg (by simpa [isEmpty] using filled)]

theorem walk_of_filled {ascending : Bool} (filled : book.leafCount ≠ 0) :
    book.walk ascending = walkFrom book.nodes ascending book.nodes.length [book.root] := by
  rw [walk, if_neg (by simpa [isEmpty] using filled)]

def NoDeadEnd (book : BookSide) (last : Bool) : Prop :=
  ∀ slot node, ¬DeadEnd book.nodes last book.nodes.length book.root slot node

theorem extreme_eq_first (none : book.NoDeadEnd last) :
    book.extreme last = (book.cursor (!last)).next.1.sequence := by
  rw [next_cursor]
  by_cases empty : book.leafCount = 0
  · have empty : book.isEmpty = true := by simpa [isEmpty] using empty
    rw [extreme, if_pos empty, walk_of_isEmpty empty]
    rfl
  · rw [extreme_of_filled empty, walk_of_filled empty]
    exact extremeFrom_eq_first none []

/-- All orders of a side begin with the first item of its walk. -/
theorem first_of_orders {orders : List Leaf} (given : book.orders = .ok orders) :
    (book.walk (book.side == .ask)).items.head?.sequence = .ok orders.head? := by
  rw [BookSide.orders, Walk.result] at given
  split at given
  · cases given
  · rename_i whole
    rw [Walk.items, whole, Except.ok.inj given]
    cases orders <;> rfl

/-- On any arena, whatever its slots hold and wherever they lead: a lookup finds no order exactly if
there are none, and then the walks are empty. It reports an unused slot at the end of its path, and
otherwise gives what the walk from its end of the side gives first, be it an order or a report. So
the best order of a side is the first of its orders, unless the path to it ends at an unused slot. -/
theorem extremes_agree_with_walks (book : BookSide) :
    (∀ last, (book.extreme last = .ok none ↔ book.leafCount = 0) ∧
      (book.leafCount ≠ 0 → ∀ slot node,
        DeadEnd book.nodes last book.nodes.length book.root slot node →
          book.extreme last = .error (.unusedOnPath node.tag slot)) ∧
      (book.NoDeadEnd last → book.extreme last = (book.cursor (!last)).next.1.sequence)) ∧
    (book.leafCount = 0 → ∀ ascending call, (book.cursor ascending).answer call = none) ∧
    (book.NoDeadEnd (book.side == .bid) →
      book.best = (book.cursor (book.side == .ask)).next.1.sequence ∧
      ∀ orders, book.orders = .ok orders → book.best = .ok orders.head?) := by
  refine ⟨fun last => ⟨⟨fun none => ?_, fun empty => ?_⟩, ?_, extreme_eq_first⟩, ?_, fun none => ?_⟩
  · by_contra filled
    rw [extreme_of_filled filled] at none
    exact extremeFrom_ne_none _ _ _ _ none
  · exact if_pos (by simpa [isEmpty] using empty)
  · intro filled slot node ends
    rw [extreme_of_filled filled]
    exact extremeFrom_of_deadEnd ends
  · intro empty ascending call
    rw [Cursor.answer_eq_items, rest_cursor, walk_of_isEmpty (by simpa [isEmpty] using empty)]
    rfl
  · have other : (!(book.side == .bid)) = (book.side == .ask) := by cases book.side <;> rfl
    have first := extreme_eq_first none
    rw [other] at first
    refine ⟨first, fun orders given => ?_⟩
    rw [best, first, next_cursor, first_of_orders given]

def hollow : BookSide :=
  { scattered with
    header := Header.new .asks 0 true
    side := .ask
    root := 0
    leafCount := 1
    nodes := [.inner (branchAt 0 1 1 1 2), .free 3, .leaf (orderAt 5 1)] }

/-- The lookup of the best order reports the released slot, which the walk passes over. From the
other end the two agree. -/
theorem extremes_of_hollow :
    hollow.best = .error (.unusedOnPath .free 1) ∧
      (hollow.cursor true).next.1 = some (.ok (orderAt 5 1)) ∧
      hollow.greatest = .ok (some (orderAt 5 1)) ∧
      (hollow.cursor false).next.1.sequence = .ok (some (orderAt 5 1)) := by
  obtain ⟨ends, -, -⟩ := extremes_agree_with_walks hollow
  have toFree : DeadEnd hollow.nodes false hollow.nodes.length hollow.root 1 (.free 3) :=
    ⟨⟨1, by decide, .down rfl .here⟩, rfl, by decide, by decide⟩
  have found : hollow.extreme true = .ok (some (orderAt 5 1)) := rfl
  have toLeaf : hollow.NoDeadEnd true := by
    intro slot node reached
    have reported := extremeFrom_of_deadEnd reached
    rw [← extreme_of_filled (by decide), found] at reported
    cases reported
  refine ⟨(ends false).2.1 (by decide) _ _ toFree, by rw [next_cursor]; rfl, found, ?_⟩
  exact ((ends true).2.2 toLeaf).symm.trans found

end BookSide
end PerpDex
