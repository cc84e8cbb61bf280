import PerpDex.Book.Tree

/-! One side of an order book as it is stored: a header and an arena of 1024 slots, in which the
orders hang in a tree. Any account of the right size and kind whose slots can be read is a book
side, whether or not its slots form a tree. -/
namespace PerpDex

structure BookSide where
  header : Header
  /-- Told by the kind of the account. -/
  side : Side
  /-- Slots below this index have been used. -/
  bumpIndex : UInt64
  freeListLength : UInt64
  freeListHead : Handle
  /-- Without a meaning while `leafCount` is zero. -/
  root : Handle
  leafCount : UInt64
  nodes : List Node
deriving DecidableEq

namespace BookSide

def capacity : Nat := 1024

def headerSize : Nat := 40

def size : Nat := headerSize + capacity * Node.size

def isEmpty (book : BookSide) : Bool := book.leafCount == 0

def kindOf : Side → AccountKind
  | .bid => .bids
  | .ask => .asks

def sideOf? : AccountKind → Option Side
  | .bids => some .bid
  | .asks => some .ask
  | _ => none

/-- The size is checked first, then the kind, then the slots from the lowest on. -/
def decode (data : Bytes) : Except Error BookSide := do
  checkSize "BookSide" size data
  let header := Header.read data
  match header.kind?.bind sideOf? with
  | none => throw (.wrongAccountKind .bids header.kindByte)
  | some side =>
    let nodes ← (Bytes.chunks Node.size capacity (data.drop headerSize)).mapM Node.decode
    return {
      header
      side
      bumpIndex := Bytes.u64At data 8
      freeListLength := Bytes.u64At data 16
      freeListHead := Bytes.u32At data 24
      root := Bytes.u32At data 28
      leafCount := Bytes.u64At data 32
      nodes }

/-- The account of a book side. Slots beyond the capacity are left out, missing ones are zero. -/
def encode (book : BookSide) : Bytes :=
  let header := book.header.toBytes ++ Bytes.ofU64 book.bumpIndex ++
    Bytes.ofU64 book.freeListLength ++ Bytes.ofU32 book.freeListHead ++ Bytes.ofU32 book.root ++
    Bytes.ofU64 book.leafCount
  let data := header ++ (book.nodes.take capacity).flatMap Node.encode
  data ++ List.replicate (size - data.length) 0

/-- The most orders that fit: `n` orders need `n - 1` branches. -/
def maxOrders : Nat := (capacity + 1) / 2

def freshNodes : List Leaf → List Node
  | [] => []
  | head :: rest => (Tree.ofSorted head rest).nodes 0

/-- A fresh book side with the given orders and no free list. Of orders with one key the first
stays. -/
def ofLeaves (side : Side) (leaves : List Leaf) : Except TreeDefect BookSide :=
  let leaves := ranked leaves
  if maxOrders < leaves.length then .error (.tooManyOrders leaves.length capacity)
  else
    let nodes := freshNodes leaves
    .ok {
      header := Header.new (kindOf side) 0 true
      side
      bumpIndex := UInt64.ofNat nodes.length
      freeListLength := 0
      freeListHead := 0
      root := 0
      leafCount := UInt64.ofNat leaves.length
      nodes := nodes ++ List.replicate (capacity - nodes.length) .uninitialized }

end BookSide
end PerpDex
