import PerpDex.Queue.Ring

/-! Following event queues through snapshots: each event is delivered once, and events that were
overwritten before a snapshot was taken are counted. -/
namespace PerpDex

inductive Unseen (ε : Type) where
  /-- All new events. -/
  | complete (events : List ε)
  /-- More events came than the ring holds; the first `missed` of them are lost. -/
  | overflowed (missed : UInt64) (recovered : List ε)
deriving DecidableEq

namespace Unseen

def events : Unseen ε → List ε
  | complete events => events
  | overflowed _ recovered => recovered

def missed : Unseen ε → UInt64
  | complete _ => 0
  | overflowed missed _ => missed

end Unseen

structure Tracker where
  last : UInt64
deriving DecidableEq

namespace Tracker

/-- The events of the first snapshot count as seen. -/
def new (q : EventQueue ε) : Tracker := ⟨q.sequence⟩

/-- The events pushed since the last snapshot. An older snapshot is refused, and neither a refusal
nor a fault moves the tracker. -/
def unseen (t : Tracker) (q : EventQueue ε) : Except Error (Unseen ε) × Tracker :=
  if q.sequence < t.last then (.error (.sequenceRegression t.last q.sequence), t)
  else
    match q.since t.last with
    | .error fault => (.error (.fault fault), t)
    | .ok recovered =>
      let distance := q.sequence.toNat - t.last.toNat
      let result :=
        if q.capacity < distance then
          Unseen.overflowed (UInt64.ofNat (distance - q.capacity)) recovered
        else .complete recovered
      (.ok result, ⟨q.sequence⟩)

end Tracker
end PerpDex
