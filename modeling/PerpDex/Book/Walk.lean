import PerpDex.Book.Side

/-! Walks over the tree of a book side. The slots may form anything, so every walk stops with a
report once it has visited as many slots as there are. -/
namespace PerpDex

/-- What a walk has met: the orders up to its end, and what ended it early. -/
structure Walk where
  leaves : List Leaf
  defect? : Option TreeDefect
deriving DecidableEq

namespace Walk

def stopped (defect : TreeDefect) : Walk := ⟨[], some defect⟩

def finished : Walk := ⟨[], none⟩

def met (leaf : Leaf) (rest : Walk) : Walk := ⟨leaf :: rest.leaves, rest.defect?⟩

def result (walk : Walk) : Except TreeDefect (List Leaf) :=
  match walk.defect? with
  | some defect => .error defect
  | none => .ok walk.leaves

end Walk

namespace BookSide

/-- The slots still to be visited stand on the stack, the next one first. Left children come
before right ones in an ascending walk. Unused slots are passed over. -/
def walkFrom (nodes : List Node) (ascending : Bool) : (visits : Nat) → List Handle → Walk
  | _, [] => .finished
  | 0, _ :: _ => .stopped (.tooLong nodes.length)
  | visits + 1, handle :: stack =>
    match nodes[handle.toNat]? with
    | none => .stopped (.outOfRange handle nodes.length)
    | some (.inner branch) =>
      walkFrom nodes ascending visits
        (branch.child (!ascending) :: branch.child ascending :: stack)
    | some (.leaf leaf) => .met leaf (walkFrom nodes ascending visits stack)
    | some _ => walkFrom nodes ascending visits stack

def walk (book : BookSide) (ascending : Bool) : Walk :=
  walkFrom book.nodes ascending book.nodes.length (if book.isEmpty then [] else [book.root])

def orders (book : BookSide) : Except TreeDefect (List Leaf) :=
  (book.walk (book.side == .ask)).result

/-- Follows the children for the bit `last` down to an order. -/
def extremeFrom (nodes : List Node) (last : Bool) :
    (visits : Nat) → Handle → Except TreeDefect (Option Leaf)
  | 0, _ => .error (.tooLong nodes.length)
  | visits + 1, handle =>
    match nodes[handle.toNat]? with
    | none => .error (.outOfRange handle nodes.length)
    | some (.inner branch) => extremeFrom nodes last visits (branch.child last)
    | some (.leaf leaf) => .ok (some leaf)
    | some node => .error (.unusedOnPath node.tag handle)

def extreme (book : BookSide) (last : Bool) : Except TreeDefect (Option Leaf) :=
  if book.isEmpty then .ok none else extremeFrom book.nodes last book.nodes.length book.root

def least (book : BookSide) : Except TreeDefect (Option Leaf) := book.extreme false

def greatest (book : BookSide) : Except TreeDefect (Option Leaf) := book.extreme true

def best (book : BookSide) : Except TreeDefect (Option Leaf) := book.extreme (book.side == .bid)

/-- Follows the bits of `key` as long as it has the prefix of the branch. -/
def findFrom (nodes : List Node) (key : BitVec 128) :
    (visits : Nat) → Handle → Except TreeDefect (Option Leaf)
  | 0, _ => .error (.tooLong nodes.length)
  | visits + 1, handle =>
    match nodes[handle.toNat]? with
    | none => .error (.outOfRange handle nodes.length)
    | some (.leaf leaf) => .ok (if leaf.orderId = key then some leaf else none)
    | some (.inner branch) =>
      if sharedBits key branch.key < branch.prefixLength.toNat then .ok none
      else findFrom nodes key visits (branch.walkDown key).1
    | some _ => .ok none

def find (book : BookSide) (key : BitVec 128) : Except TreeDefect (Option Leaf) :=
  if book.isEmpty then .ok none else findFrom book.nodes key book.nodes.length book.root

end BookSide
end PerpDex
