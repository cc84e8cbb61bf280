import PerpDex.Book.Node

/-! Trees of orders, ranked by the bits of their keys, and their layout as consecutive slots: each
branch stands in front of its left subtree, and that in front of the right one. -/
namespace PerpDex

inductive Tree where
  | leaf (leaf : Leaf)
  | branch (prefixLength : Nat) (left right : Tree)

namespace Tree

def leaves : Tree → List Leaf
  | leaf l => [l]
  | branch _ left right => left.leaves ++ right.leaves

def first : Tree → Leaf
  | leaf l => l
  | branch _ left _ => left.first

def size : Tree → Nat
  | leaf _ => 1
  | branch _ left right => left.size + right.size + 1

/-- The earliest expiry among the orders, the greatest number if none of them expires. -/
def earliestExpiry (leaves : List Leaf) : UInt64 :=
  (leaves.filterMap Leaf.expiresAt).foldl (fun earliest t => if t < earliest then t else earliest)
    (UInt64.ofNat (2 ^ 64 - 1))

def nodes (start : Nat) : Tree → List Node
  | leaf l => [.leaf l]
  | branch prefixLength left right =>
    let leftStart := start + 1
    let rightStart := leftStart + left.size
    .inner {
      prefixLength := UInt32.ofNat prefixLength
      key := left.first.orderId
      left := UInt32.ofNat leftStart
      right := UInt32.ofNat rightStart
      leftExpiry := earliestExpiry left.leaves
      rightExpiry := earliestExpiry right.leaves } ::
    (left.nodes leftStart ++ right.nodes rightStart)

@[simp] theorem length_nodes (tree : Tree) (start : Nat) :
    (tree.nodes start).length = tree.size := by
  induction tree generalizing start with
  | leaf => rfl
  | branch _ left right ihLeft ihRight => simp [nodes, size, ihLeft, ihRight]

def sharedByAll (head : Leaf) (rest : List Leaf) : Nat :=
  sharedBits head.orderId (rest.getLastD head).orderId

/-- The orders behind `head` whose first bit that is not shared is zero. -/
def lowPart (head : Leaf) (rest : List Leaf) : List Leaf :=
  rest.takeWhile fun l => !l.orderId.getMsbD (sharedByAll head rest)

/-- The orders from the first one on whose first bit that is not shared is one. -/
def highPart (head : Leaf) (rest : List Leaf) : List Leaf :=
  rest.dropWhile fun l => !l.orderId.getMsbD (sharedByAll head rest)

theorem lowPart_append_highPart (head : Leaf) (rest : List Leaf) :
    lowPart head rest ++ highPart head rest = rest := List.takeWhile_append_dropWhile

/-- The tree of the orders `head :: rest`, which are in strictly ascending order of their keys, so
that `head` goes to the left. -/
def ofSorted (head : Leaf) (rest : List Leaf) : Tree :=
  match _high : highPart head rest with
  | [] => leaf head
  | middle :: tail =>
    branch (sharedByAll head rest) (ofSorted head (lowPart head rest)) (ofSorted middle tail)
termination_by rest.length
decreasing_by
  all_goals
    have whole := congrArg List.length (lowPart_append_highPart head rest)
    rw [List.length_append, _high, List.length_cons] at whole
    omega

end Tree

/-- The orders of a list that is sorted by key, without repeated keys: the first order of a key
stays. -/
def dropRepeats (previous : Option (BitVec 128)) : List Leaf → List Leaf
  | [] => []
  | l :: rest =>
    if previous = some l.orderId then dropRepeats previous rest
    else l :: dropRepeats (some l.orderId) rest

def ranked (leaves : List Leaf) : List Leaf :=
  dropRepeats none (leaves.mergeSort fun a b => a.orderId ≤ b.orderId)

end PerpDex
