import PerpDex.Error

/-! Event queues: rings whose slots are all visible. The live events are those not yet consumed;
consumed events stay readable until they are overwritten. -/
namespace PerpDex

structure EventQueue (ε : Type) where
  /-- The slot of the oldest live event. -/
  head : UInt64
  /-- The number of live events. -/
  count : UInt64
  /-- The number of events ever pushed. -/
  sequence : UInt64
  /-- All slots, in the order of the account. -/
  events : List ε
deriving DecidableEq

namespace EventQueue

variable {ε : Type}

def capacity (q : EventQueue ε) : Nat := q.events.length

/-- The slot that lies `offset` slots behind the head. The sum wraps at 64 bits, the slot number
at the capacity. -/
def slotOf (q : EventQueue ε) (offset : Nat) : Nat :=
  (q.head.toNat + offset) % 2 ^ 64 % q.capacity

/-- The events of `count` slots, the first of them `first` slots behind the head. -/
def window (q : EventQueue ε) (first count : Nat) : Except Fault (List ε) :=
  if count = 0 then .ok []
  else if q.capacity = 0 then .error .remainderByZero
  else .ok ((List.range count).filterMap fun i => q.events[q.slotOf (first + i)]?)

/-- The events that wait to be consumed, the oldest first. -/
def live (q : EventQueue ε) : Except Fault (List ε) := q.window 0 q.count.toNat

/-- The consumed events that are not overwritten yet, the oldest first. -/
def processed (q : EventQueue ε) : Except Fault (List ε) :=
  let written := q.sequence.toNat - q.count.toNat
  let retained := min written (q.capacity - q.count.toNat)
  q.window (q.capacity - retained) retained

/-- The number of readable events that were pushed after the first `last` ones. -/
def distance (q : EventQueue ε) (last : UInt64) : Nat :=
  min (q.sequence.toNat - last.toNat) q.capacity

/-- The latest `distance last` events, the oldest first, consumed or not. -/
def since (q : EventQueue ε) (last : UInt64) : Except Fault (List ε) :=
  let distance := q.distance last
  if distance = 0 then .ok []
  else if 2 ^ 64 ≤ q.count.toNat + q.capacity then .error .overflow
  else q.window (q.count.toNat + q.capacity - distance) distance

end EventQueue
end PerpDex
