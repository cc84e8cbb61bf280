import PerpDex.Queue.Ring

/-! The other end of an event queue: how pushing and consuming events changes the ring. -/
namespace PerpDex.EventQueue

variable {ε : Type}

/-- Writes an event behind the live ones. A full ring gives up its oldest live event. -/
def push (q : EventQueue ε) (event : ε) : EventQueue ε :=
  let full := q.count.toNat = q.capacity
  { head := if full then UInt64.ofNat ((q.head.toNat + 1) % q.capacity) else q.head
    count := if full then q.count else q.count + 1
    sequence := q.sequence + 1
    events := q.events.set ((q.head.toNat + q.count.toNat) % q.capacity) event }

def consume (q : EventQueue ε) (n : Nat) : EventQueue ε :=
  let n := min n q.count.toNat
  { q with
    head := UInt64.ofNat ((q.head.toNat + n) % q.capacity)
    count := UInt64.ofNat (q.count.toNat - n) }

end PerpDex.EventQueue
