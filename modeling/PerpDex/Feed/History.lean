import PerpDex.Feed.Table

/-! What can happen to a table of registrations, step by step, and what is remembered of it. A
history lists the events that matter for requests and bindings, the latest first; the steps may come
in any order, and frames may hold anything. -/
namespace PerpDex.SubscriptionTable

inductive Step (α : Type) where
  | withChannelCapacity (capacity : Nat)
  | register (address : Address) (decode : AccountInfo → Except Error α)
  | takeUnsent
  | handle (text : String)
  | resetBindings
  | disposeAll
  | receive (id : Nat)
  | dropReceiver (id : Nat)

inductive Event where
  /-- Requests were taken for the registrations with these ids. -/
  | requested (subscriptions : List Nat) (requests : List Request)
  /-- A request was confirmed for a registration. -/
  | confirmed (request : UInt64) (subscription : Nat) (transport : UInt64)
  | reset
  | disposed
  /-- Anything else. -/
  | other
deriving DecidableEq

/-- The bindings are gone after it. -/
def Event.unbinds : Event → Prop
  | .reset | .disposed => True
  | _ => False

variable {α : Type}

def unsent (t : SubscriptionTable α) : List (Subscription α) :=
  t.subscriptions.filter (·.state = .unsent)

def apply (t : SubscriptionTable α) : Step α → SubscriptionTable α
  | .withChannelCapacity capacity => t.withChannelCapacity capacity
  | .register address decode =>
    match t.register address decode with
    | .ok (_, t) => t
    | .error _ => t
  | .takeUnsent => t.takeUnsent.2
  | .handle text => (t.handle text).2
  | .resetBindings => t.resetBindings
  | .disposeAll => t.disposeAll
  | .receive id => (t.receive id).2
  | .dropReceiver id => (t.dropReceiver id).2

def event (t : SubscriptionTable α) : Step α → Event
  | .takeUnsent => .requested (t.unsent.map (·.id)) t.takeUnsent.1
  | .handle text =>
    match Frame.read text, (t.handle text).1 with
    | .ok (.confirmation request _), .ok (.confirmed subscription transport) =>
      .confirmed request subscription transport
    | _, _ => .other
  | .resetBindings => .reset
  | .disposeAll => .disposed
  | _ => .other

/-- The tables that any steps lead to from an empty one, with what happened on the way. -/
inductive History : List Event → SubscriptionTable α → Prop where
  | new (commitment : Commitment) : History [] (new commitment)
  | step {log : List Event} {t : SubscriptionTable α} (history : History log t) (step : Step α) :
      History (t.event step :: log) (t.apply step)

def run (log : List Event) (t : SubscriptionTable α) :
    (steps : List (Step α)) → List Event × SubscriptionTable α
  | [] => (log, t)
  | step :: steps => run (t.event step :: log) (t.apply step) steps

def texts (t : SubscriptionTable α) : (steps : List (Step α)) → List String
  | [] => []
  | .takeUnsent :: steps => t.takeTexts.1 ++ texts t.takeTexts.2 steps
  | step :: steps => texts (t.apply step) steps

theorem History.run {log : List Event} {t : SubscriptionTable α} (history : History log t)
    (steps : List (Step α)) :
    History (SubscriptionTable.run log t steps).1 (SubscriptionTable.run log t steps).2 := by
  induction steps generalizing log t with
  | nil => exact history
  | cons step steps ih => exact ih (history.step step)

def taken : List Event → List Request
  | [] => []
  | .requested _ requests :: log => taken log ++ requests
  | _ :: log => taken log

/-- The request was taken before the bindings were last dropped. -/
def forgotten (request : Nat) (log : List Event) : Prop :=
  ∃ later event earlier, log = later ++ event :: earlier ∧ event.unbinds ∧
    request ∈ (taken earlier).map (·.id)

/-- The ids of the requests taken since the bindings were last dropped that are not confirmed. -/
def pending : List Event → List Nat
  | [] => []
  | .requested _ requests :: log => pending log ++ requests.map (·.id)
  | .confirmed request _ _ :: log => (pending log).filter (· ≠ request.toNat)
  | .reset :: _ | .disposed :: _ => []
  | .other :: log => pending log

/-- The registration confirmed last under a transport id since the bindings were last dropped. -/
def confirmedLast (transport : UInt64) : List Event → Option Nat
  | [] => none
  | .confirmed _ subscription other :: log =>
    if other = transport then some subscription else confirmedLast transport log
  | .reset :: _ | .disposed :: _ => none
  | .requested _ _ :: log | .other :: log => confirmedLast transport log

/-- The registrations for which requests were taken since the last reset, once for each request. -/
def requestedSinceReset : List Event → List Nat
  | [] => []
  | .requested subscriptions _ :: log => requestedSinceReset log ++ subscriptions
  | .reset :: _ => []
  | _ :: log => requestedSinceReset log

end PerpDex.SubscriptionTable
