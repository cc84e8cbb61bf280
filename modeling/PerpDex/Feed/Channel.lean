/-! Channels from one publisher to one receiver that keep the latest values only. A receiver that
has fallen behind is told how many values it missed and goes on with the oldest one kept. -/
namespace PerpDex

structure Channel (α : Type) where
  /-- The number of values kept. -/
  size : Nat
  /-- The values kept, the oldest first. -/
  kept : List α
  /-- The number of values ever sent. -/
  sent : Nat
  /-- The number of values received or missed. -/
  next : Nat
  /-- The publisher is still there. -/
  isOpen : Bool
  /-- The receiver is still there. -/
  hasReceiver : Bool

inductive Received (α : Type) where
  | value (a : α)
  | empty
  | closed
  | lagged (missed : Nat)

namespace Channel

variable {α : Type}

/-- Room for at least `capacity` values and for at least one, rounded up to a power of two. -/
def new (capacity : Nat) : Channel α where
  size := Nat.nextPowerOfTwo capacity
  kept := []
  sent := 0
  next := 0
  isOpen := true
  hasReceiver := true

/-- Without a receiver a value is lost. -/
def send (c : Channel α) (a : α) : Channel α :=
  if c.hasReceiver then
    let kept := c.kept ++ [a]
    { c with kept := kept.drop (kept.length - c.size), sent := c.sent + 1 }
  else c

def close (c : Channel α) : Channel α := { c with isOpen := false }

def dropReceiver (c : Channel α) : Channel α := { c with hasReceiver := false }

/-- The next value, if it is still kept. The values left behind by the publisher come before the
end. -/
def receive (c : Channel α) : Received α × Channel α :=
  let oldest := c.sent - c.kept.length
  if c.next < oldest then (.lagged (oldest - c.next), { c with next := oldest })
  else
    match c.kept[c.next - oldest]? with
    | some a => (.value a, { c with next := c.next + 1 })
    | none => (if c.isOpen then .empty else .closed, c)

end Channel
end PerpDex
