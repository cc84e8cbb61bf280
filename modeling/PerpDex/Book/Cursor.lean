import PerpDex.Book.Walk

/-! A walk that is taken one order at a time. The cursor keeps the slots still to be visited and
the number of those it has visited; once it has reported a defect it gives nothing any more. -/
namespace PerpDex

structure Cursor where
  nodes : List Node
  ascending : Bool
  /-- The slots still to be visited, the next one first. -/
  stack : List Handle
  visited : Nat
  /-- A defect was reported. -/
  failed : Bool

namespace Cursor

/-- Visits slots up to the next order and gives it, or the defect that ends the walk. -/
def next (c : Cursor) : Option (Except TreeDefect Leaf) × Cursor :=
  if c.failed then (none, c)
  else
    match c.stack with
    | [] => (none, c)
    | handle :: stack =>
      let seen := { c with stack, visited := c.visited + 1 }
      if _long : c.nodes.length < c.visited + 1 then
        (some (.error (.tooLong c.nodes.length)), { seen with failed := true })
      else
        match c.nodes[handle.toNat]? with
        | none => (some (.error (.outOfRange handle c.nodes.length)), { seen with failed := true })
        | some (.leaf leaf) => (some (.ok leaf), seen)
        | some (.inner b) =>
          next { seen with stack := b.child (!c.ascending) :: b.child c.ascending :: stack }
        | some _ => next seen
termination_by c.nodes.length - c.visited

def after (c : Cursor) : (calls : Nat) → Cursor
  | 0 => c
  | calls + 1 => c.next.2.after calls

/-- What a call gives; the calls are counted from zero. -/
def answer (c : Cursor) (call : Nat) : Option (Except TreeDefect Leaf) := (c.after call).next.1

end Cursor

def BookSide.cursor (book : BookSide) (ascending : Bool) : Cursor where
  nodes := book.nodes
  ascending
  stack := if book.isEmpty then [] else [book.root]
  visited := 0
  failed := false

end PerpDex
