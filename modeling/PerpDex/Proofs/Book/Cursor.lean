import PerpDex.Book.Cursor
import PerpDex.Proofs.Book.Unfolding

/-! The cursor gives what the walk meets. One call takes the first item from what is still to come,
so a call with a number gives the item with that number, and every walk ends after as many visits as
there are slots or with the report of one visit more. -/
namespace PerpDex

def Walk.items (walk : Walk) : List (Except TreeDefect Leaf) :=
  walk.leaves.map .ok ++ walk.defect?.toList.map .error

@[simp] theorem Walk.items_finished : Walk.finished.items = [] := rfl

@[simp] theorem Walk.items_stopped (defect : TreeDefect) :
    (Walk.stopped defect).items = [.error defect] := rfl

@[simp] theorem Walk.items_met (leaf : Leaf) (rest : Walk) :
    (Walk.met leaf rest).items = .ok leaf :: rest.items := rfl

namespace Cursor

def rest (c : Cursor) : Walk :=
  if c.failed then .finished
  else BookSide.walkFrom c.nodes c.ascending (c.nodes.length - c.visited) c.stack

/-- The walk to come from a cursor with a slot on its stack and visits left. -/
theorem rest_of_short {c : Cursor} {handle : Handle} {stack : List Handle}
    (running : ¬c.failed = true) (onStack : c.stack = handle :: stack)
    (short : ¬c.nodes.length < c.visited + 1) :
    c.rest = BookSide.walkFrom c.nodes c.ascending (c.nodes.length - (c.visited + 1) + 1)
      (handle :: stack) := by
  have left : c.nodes.length - (c.visited + 1) + 1 = c.nodes.length - c.visited := by omega
  rw [rest, if_neg running, onStack, left]

/-- A call takes the first item from what is still to come. -/
theorem next_rest (c : Cursor) :
    c.next.1 = c.rest.items.head? ∧ c.next.2.rest.items = c.rest.items.tail := by
  fun_induction next c with
  | case1 c failed => simp [rest, failed]
  | case2 c running empty => simp [rest, running, empty, BookSide.walkFrom]
  | case3 c running handle stack onStack seen long =>
    have none : c.nodes.length - c.visited = 0 := by omega
    simp [rest, running, onStack, none, BookSide.walkFrom]
  | case4 c running handle stack onStack seen short outside =>
    rw [rest_of_short running onStack short, BookSide.walkFrom, outside]
    exact ⟨rfl, rfl⟩
  | case5 c running handle stack onStack seen short leaf here =>
    have left : seen.rest = BookSide.walkFrom c.nodes c.ascending
        (c.nodes.length - (c.visited + 1)) stack := if_neg running
    rw [rest_of_short running onStack short, BookSide.walkFrom, here, left]
    exact ⟨rfl, rfl⟩
  | case6 c running handle stack onStack seen short b here ih =>
    rw [rest_of_short running onStack short, BookSide.walkFrom, here]
    rwa [rest, if_neg running] at ih
  | case7 c running handle stack onStack seen short node notLeaf notInner here ih =>
    rw [rest_of_short running onStack short, BookSide.walkFrom, here]
    rw [rest, if_neg running] at ih
    cases node with
    | leaf leaf => exact absurd rfl (notLeaf leaf)
    | inner b => exact absurd rfl (notInner b)
    | uninitialized | free | lastFree => exact ih

/-- The arena has this many slots, and no more were visited, but for a last one that was reported. -/
structure Bounded (slots : Nat) (c : Cursor) : Prop where
  length_nodes : c.nodes.length = slots
  visited_le : c.visited ≤ slots + if c.failed then 1 else 0

theorem Bounded.next {slots : Nat} {c : Cursor} (bounded : Bounded slots c) :
    Bounded slots c.next.2 := by
  have same := bounded.length_nodes
  fun_induction Cursor.next c with
  | case1 | case2 => exact bounded
  | case3 c running handle stack onStack seen long =>
    have le := bounded.visited_le
    simp only [running, Bool.false_eq_true, if_false] at le
    exact ⟨same, Nat.succ_le_succ le⟩
  | case4 c running handle stack onStack seen short outside =>
    have le : seen.visited ≤ slots := same ▸ Nat.not_lt.mp short
    exact ⟨same, Nat.le_succ_of_le le⟩
  | case5 c running handle stack onStack seen short leaf here =>
    have le : seen.visited ≤ slots := same ▸ Nat.not_lt.mp short
    exact ⟨same, Nat.le_add_right_of_le le⟩
  | case6 c running handle stack onStack seen short b here ih =>
    have le : seen.visited ≤ slots := same ▸ Nat.not_lt.mp short
    exact ih ⟨same, Nat.le_add_right_of_le le⟩ same
  | case7 c running handle stack onStack seen short node notLeaf notInner here ih =>
    have le : seen.visited ≤ slots := same ▸ Nat.not_lt.mp short
    exact ih ⟨same, Nat.le_add_right_of_le le⟩ same

theorem Bounded.after {slots : Nat} {c : Cursor} (bounded : Bounded slots c) (calls : Nat) :
    Bounded slots (c.after calls) := by
  induction calls generalizing c with
  | zero => exact bounded
  | succ calls ih => exact ih bounded.next

theorem answer_eq_items (c : Cursor) (call : Nat) : c.answer call = c.rest.items[call]? := by
  induction call generalizing c with
  | zero =>
    rw [← List.head?_eq_getElem?]
    exact (next_rest c).1
  | succ call ih =>
    rw [← List.getElem?_tail, ← (next_rest c).2]
    exact ih c.next.2

end Cursor

namespace BookSide

theorem rest_cursor (book : BookSide) (ascending : Bool) :
    (book.cursor ascending).rest = book.walk ascending := by
  simp [Cursor.rest, cursor, walk]

theorem length_leaves_walkFrom_le (nodes : List Node) (ascending : Bool) (visits : Nat)
    (stack : List Handle) : (walkFrom nodes ascending visits stack).leaves.length ≤ visits := by
  fun_induction walkFrom nodes ascending visits stack with
  | case1 => simp [Walk.finished]
  | case2 => simp [Walk.stopped]
  | case3 => simp [Walk.stopped]
  | case4 _ _ _ _ _ ih => exact Nat.le_succ_of_le ih
  | case5 _ _ _ _ _ ih => exact Nat.succ_le_succ ih
  | case6 _ _ _ _ _ _ _ ih => exact Nat.le_succ_of_le ih

theorem length_items_walk_le (book : BookSide) (ascending : Bool) :
    (book.walk ascending).items.length ≤ book.nodes.length + 1 := by
  have met : (book.walk ascending).leaves.length ≤ book.nodes.length :=
    length_leaves_walkFrom_le ..
  have reported : (book.walk ascending).defect?.toList.length ≤ 1 := by
    cases (book.walk ascending).defect? <;> simp
  simp only [Walk.items, List.length_append, List.length_map]
  omega

end BookSide

/-- A report stands behind all orders. -/
theorem Walk.length_items_of_error {walk : Walk} {position : Nat} {defect : TreeDefect}
    (reported : walk.items[position]? = some (.error defect)) :
    walk.items.length = position + 1 := by
  rw [items, List.getElem?_append] at reported
  split at reported
  · simp at reported
  · next behind =>
    obtain ⟨inside, -⟩ := List.getElem?_eq_some_iff.mp reported
    have one : walk.defect?.toList.length ≤ 1 := by cases walk.defect? <;> simp
    simp only [List.length_map] at inside behind
    simp only [items, List.length_append, List.length_map]
    omega

namespace BookSide

/-- On any arena, whatever its slots hold and wherever they lead: a walk ends, and visits no more
slots than there are, but for a last one that it reports. A report is the last thing it gives. The
walk upwards reports a defect exactly if the walk downwards does, and if they report none, they meet
the same orders in opposite order. -/
theorem walks_both_ways (book : BookSide) :
    (∀ ascending, let cursor := book.cursor ascending
      (∀ calls, (cursor.after calls).visited ≤
        book.nodes.length + if (cursor.after calls).failed then 1 else 0) ∧
      (∀ call, book.nodes.length < call → cursor.answer call = none) ∧
      (∀ call defect, cursor.answer call = some (.error defect) →
        ∀ later, call < later → cursor.answer later = none) ∧
      ∀ call, cursor.answer call = (book.walk ascending).items[call]?) ∧
    ((book.walk true).defect? = none ↔ (book.walk false).defect? = none) ∧
    ((book.walk true).defect? = none →
      (book.walk false).leaves = (book.walk true).leaves.reverse) := by
  refine ⟨fun ascending => ?_, ?_, ?_⟩
  · have given : ∀ call, (book.cursor ascending).answer call = (book.walk ascending).items[call]? := by
      intro call
      rw [Cursor.answer_eq_items, rest_cursor]
    have start : Cursor.Bounded book.nodes.length (book.cursor ascending) := ⟨rfl, Nat.zero_le _⟩
    refine ⟨fun calls => (start.after calls).visited_le, ?_, ?_, given⟩
    · intro call past
      have few := length_items_walk_le book ascending
      rw [given, List.getElem?_eq_none (by omega)]
    · intro call defect reported later behind
      rw [given] at reported ⊢
      have last := Walk.length_items_of_error reported
      rw [List.getElem?_eq_none (by omega)]
  · constructor
    · intro ended
      obtain ⟨leaves, walks⟩ := walks_of_defect?_eq_none ended
      rw [walks]
    · intro ended
      obtain ⟨leaves, walks⟩ := walks_of_defect?_eq_none ended
      rw [walks]
  · intro ended
    obtain ⟨leaves, walks⟩ := walks_of_defect?_eq_none ended
    rw [walks, walks]
    rfl

end BookSide
end PerpDex
