import PerpDex.Book.Walk

/-! What a walk meets when it starts at a slot of an arbitrary arena. Children may be shared or lead
back, so a slot stands for a tree that need not end. A walk that reports no defect has been through
the whole of such a tree, and the tree does not depend on the direction of the walk. -/
namespace PerpDex

/-- A walk in front of which more orders were met. -/
def Walk.behind (walk : Walk) (leaves : List Leaf) : Walk := ⟨leaves ++ walk.leaves, walk.defect?⟩

theorem Walk.behind_append (walk : Walk) (first second : List Leaf) :
    (walk.behind second).behind first = walk.behind (first ++ second) := by
  simp [Walk.behind]

/-- Following the children of a slot comes to an end within the arena, after this number of visits
and with these orders from left to right. A slot that is shared is visited once for each parent. -/
inductive Unfolds (nodes : List Node) : Handle → Nat → List Leaf → Prop where
  | leaf {slot : Handle} {l : Leaf} :
      nodes[slot.toNat]? = some (.leaf l) → Unfolds nodes slot 1 [l]
  | unused {slot : Handle} {node : Node} : nodes[slot.toNat]? = some node → node.tag ≠ .inner →
      node.tag ≠ .leaf → Unfolds nodes slot 1 []
  | branch {slot : Handle} {b : Branch} {left right : Nat} {low high : List Leaf} :
      nodes[slot.toNat]? = some (.inner b) → Unfolds nodes b.left left low →
      Unfolds nodes b.right right high → Unfolds nodes slot (left + right + 1) (low ++ high)

/-- Orders in the direction of a walk, given from left to right. -/
def directed (ascending : Bool) (leaves : List Leaf) : List Leaf :=
  if ascending then leaves else leaves.reverse

namespace BookSide

variable {nodes : List Node} {ascending : Bool} {visits : Nat} {slot : Handle}
  {stack : List Handle} {leaves : List Leaf}

theorem walkFrom_unused {node : Node} (here : nodes[slot.toNat]? = some node)
    (notInner : node.tag ≠ .inner) (notLeaf : node.tag ≠ .leaf) :
    walkFrom nodes ascending (visits + 1) (slot :: stack) =
      walkFrom nodes ascending visits stack := by
  rw [walkFrom, here]
  cases node with
  | inner => exact absurd rfl notInner
  | leaf => exact absurd rfl notLeaf
  | uninitialized | free | lastFree => rfl

/-- A walk goes through the whole of a tree that ends, and leaves the rest of its stack alone. -/
theorem walkFrom_unfolds (unfolds : Unfolds nodes slot visits leaves) (ascending : Bool)
    (more : Nat) (stack : List Handle) :
    walkFrom nodes ascending (visits + more) (slot :: stack) =
      (walkFrom nodes ascending more stack).behind (directed ascending leaves) := by
  induction unfolds generalizing more stack with
  | leaf here =>
    rw [Nat.add_comm, walkFrom, here]
    cases ascending <;> rfl
  | unused here notInner notLeaf =>
    rw [Nat.add_comm, walkFrom_unused here notInner notLeaf]
    cases ascending <;> rfl
  | @branch slot b left right low high here _ _ ihLeft ihRight =>
    have count : left + right + 1 + more = left + (right + more) + 1 := by omega
    rw [count, walkFrom, here]
    cases ascending with
    | true =>
      have children : b.child (!true) :: b.child true :: stack = b.left :: b.right :: stack := rfl
      simp only [children]
      rw [ihLeft, ihRight, Walk.behind_append]
      rfl
    | false =>
      have children : b.child (!false) :: b.child false :: stack = b.right :: b.left :: stack := rfl
      simp only [children]
      rw [Nat.add_left_comm, ihRight, ihLeft, Walk.behind_append]
      simp [directed]

/-- A walk without a defect has been through the tree of the slot on top of its stack, with as many
visits as the tree takes, before it went on with the rest. -/
theorem unfolds_of_walkFrom (ended : (walkFrom nodes ascending visits (slot :: stack)).defect? = none) :
    ∃ taken leaves, Unfolds nodes slot taken leaves ∧ taken ≤ visits ∧
      (walkFrom nodes ascending (visits - taken) stack).defect? = none := by
  induction visits using Nat.strongRecOn generalizing slot stack with
  | _ visits ih =>
    cases visits with
    | zero => cases ended
    | succ visits =>
      cases here : nodes[slot.toNat]? with
      | none =>
        rw [walkFrom, here] at ended
        cases ended
      | some node =>
        cases node with
        | leaf l =>
          rw [walkFrom, here] at ended
          exact ⟨1, [l], .leaf here, by omega, ended⟩
        | uninitialized | free | lastFree =>
          rw [walkFrom, here] at ended
          exact ⟨1, [], .unused here (by simp [Node.tag]) (by simp [Node.tag]), by omega, ended⟩
        | inner b =>
          rw [walkFrom, here] at ended
          obtain ⟨first, nearer, unfoldsFirst, firstLe, between⟩ := ih visits (by omega) ended
          obtain ⟨second, farther, unfoldsSecond, secondLe, rest⟩ :=
            ih (visits - first) (by omega) between
          have left : visits + 1 - (first + second + 1) = visits - first - second := by omega
          have right : visits + 1 - (second + first + 1) = visits - first - second := by omega
          cases ascending with
          | true =>
            exact ⟨_, _, .branch here unfoldsFirst unfoldsSecond, by omega, left ▸ rest⟩
          | false =>
            exact ⟨_, _, .branch here unfoldsSecond unfoldsFirst, by omega, right ▸ rest⟩

theorem walk_of_unfolds {book : BookSide} (filled : book.isEmpty = false)
    (unfolds : Unfolds book.nodes book.root visits leaves) (le : visits ≤ book.nodes.length)
    (ascending : Bool) : book.walk ascending = ⟨directed ascending leaves, none⟩ := by
  obtain ⟨more, whole⟩ := Nat.exists_eq_add_of_le le
  rw [walk, filled, whole]
  simp only [Bool.false_eq_true, if_false]
  rw [walkFrom_unfolds unfolds, walkFrom]
  simp [Walk.behind, Walk.finished]

/-- If the walk in one direction reports no defect, the walks in both directions report none and
meet the same orders. -/
theorem walks_of_defect?_eq_none {book : BookSide} (ended : (book.walk ascending).defect? = none) :
    ∃ leaves, ∀ direction, book.walk direction = ⟨directed direction leaves, none⟩ := by
  cases filled : book.isEmpty with
  | true =>
    refine ⟨[], fun direction => ?_⟩
    cases direction <;> simp [walk, filled, walkFrom, Walk.finished, directed]
  | false =>
    rw [walk, filled] at ended
    obtain ⟨visits, leaves, unfolds, le, -⟩ := unfolds_of_walkFrom ended
    exact ⟨leaves, walk_of_unfolds filled unfolds le⟩

end BookSide
end PerpDex
