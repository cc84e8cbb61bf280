import PerpDex.Feed.Channel
import PerpDex.Feed.Frame

/-! The registrations for accounts and their binding to the current connection. A registration is
requested once per connection, confirmed under a transport id, and then gets the values of the
notifications for that id on its channel. -/
namespace PerpDex

inductive SubscriptionState where
  | unsent
  | requested (request : Nat)
  | confirmed (transport : UInt64)
deriving DecidableEq

structure Subscription (α : Type) where
  id : Nat
  address : Address
  state : SubscriptionState
  /-- Turns a notified account into the value for the channel. -/
  decode : AccountInfo → Except Error α

inductive Dispatch where
  | confirmed (subscription : Nat) (transport : UInt64)
  | published (subscription : Nat) (slot : UInt64)
  | rejected (subscription? : Option Nat) (message : String)
  | ignored
deriving DecidableEq

structure SubscriptionTable (α : Type) where
  commitment : Commitment
  channelCapacity : Nat
  /-- The number of registrations ever made; ids count from 1. -/
  registered : Nat
  /-- The number of requests ever made; ids count from 1. -/
  requested : Nat
  subscriptions : List (Subscription α)
  /-- The position of the registration that a transport id notifies. -/
  bindings : UInt64 → Option Nat
  /-- The channel of each registration ever made, by its id. -/
  channels : Nat → Option (Channel α)

namespace SubscriptionTable

variable {α : Type}

def defaultCapacity : Nat := 16

def new (commitment : Commitment) : SubscriptionTable α where
  commitment
  channelCapacity := defaultCapacity
  registered := 0
  requested := 0
  subscriptions := []
  bindings := fun _ => none
  channels := fun _ => none

/-- Later registrations get channels of this capacity, which is at least 1. -/
def withChannelCapacity (t : SubscriptionTable α) (capacity : Nat) : SubscriptionTable α :=
  { t with channelCapacity := max 1 capacity }

def size (t : SubscriptionTable α) : Nat := t.subscriptions.length

def state? (t : SubscriptionTable α) (id : Nat) : Option SubscriptionState :=
  (t.subscriptions.find? (·.id = id)).map (·.state)

def setChannel (t : SubscriptionTable α) (id : Nat) (channel : Channel α) : SubscriptionTable α :=
  { t with channels := fun other => if other = id then some channel else t.channels other }

def send (t : SubscriptionTable α) (id : Nat) (value : α) : SubscriptionTable α :=
  match t.channels id with
  | none => t
  | some channel => t.setChannel id (channel.send value)

/-- The least number of bytes that a channel sets aside for a value. -/
def slotSize : Nat := 32

def register (t : SubscriptionTable α) (address : Address)
    (decode : AccountInfo → Except Error α) : Except Fault (Nat × SubscriptionTable α) :=
  let channel : Channel α := Channel.new t.channelCapacity
  if 2 ^ 63 ≤ channel.size * slotSize then .error .capacityOverflow
  else
    let id := t.registered + 1
    let t := t.setChannel id channel
    .ok (id, { t with
      registered := id
      subscriptions := t.subscriptions ++ [{ id, address, state := .unsent, decode }] })

/-- Requests every registration that is not requested yet, with ids above `last`. -/
def requestUnsent (last : Nat) :
    List (Subscription α) → List Request × List (Subscription α) × Nat
  | [] => ([], [], last)
  | s :: rest =>
    if s.state = .unsent then
      let (requests, rest, final) := requestUnsent (last + 1) rest
      (⟨last + 1, s.address⟩ :: requests, { s with state := .requested (last + 1) } :: rest, final)
    else
      let (requests, rest, final) := requestUnsent last rest
      (requests, s :: rest, final)

def takeUnsent (t : SubscriptionTable α) : List Request × SubscriptionTable α :=
  let (requests, subscriptions, requested) := requestUnsent t.requested t.subscriptions
  (requests, { t with subscriptions, requested })

def takeTexts (t : SubscriptionTable α) : List String × SubscriptionTable α :=
  let (requests, taken) := t.takeUnsent
  (requests.map (·.text t.commitment), taken)

def waiting? (t : SubscriptionTable α) (request : UInt64) : Option Nat :=
  t.subscriptions.findIdx? (·.state = .requested request.toNat)

/-- A transport id notifies the registration that was bound to it last. -/
def bindTo (bindings : UInt64 → Option Nat) (transport : UInt64) (position : Nat) :
    UInt64 → Option Nat :=
  fun other => if other = transport then some position else bindings other

def confirm (t : SubscriptionTable α) (request transport : UInt64) :
    Dispatch × SubscriptionTable α :=
  match t.waiting? request with
  | none => (.ignored, t)
  | some position =>
    match t.subscriptions[position]? with
    | none => (.ignored, t)
    | some s =>
      (.confirmed s.id transport, { t with
        subscriptions := t.subscriptions.set position { s with state := .confirmed transport }
        bindings := bindTo t.bindings transport position })

/-- A refused request leaves its registration waiting. -/
def rejected (t : SubscriptionTable α) (request? : Option UInt64) (message : String) : Dispatch :=
  let subscription? := request?.bind fun request =>
    (t.waiting? request).bind fun position => t.subscriptions[position]?
  .rejected (subscription?.map (·.id)) message

def publish (t : SubscriptionTable α) (n : Notification) :
    Except Error Dispatch × SubscriptionTable α :=
  match t.bindings n.transport with
  | none => (.ok .ignored, t)
  | some position =>
    match t.subscriptions[position]? with
    | none => (.error (.fault .indexOutOfRange), t)
    | some s =>
      match (n.account.toInfo s.address).bind s.decode with
      | .error e => (.error e, t)
      | .ok value => (.ok (.published s.id n.slot), t.send s.id value)

/-- Applies an inbound frame. Notifications other than those of accounts are passed over. -/
def handleFrame (t : SubscriptionTable α) : Frame → Except Error Dispatch × SubscriptionTable α
  | .confirmation request transport =>
    let (dispatch, t) := t.confirm request transport
    (.ok dispatch, t)
  | .failure request? _ message => (.ok (t.rejected request? message), t)
  | .notification n =>
    if n.method = "accountNotification" then t.publish n else (.ok .ignored, t)
  | .other => (.ok .ignored, t)

def handle (t : SubscriptionTable α) (text : String) :
    Except Error Dispatch × SubscriptionTable α :=
  match Frame.read text with
  | .error e => (.error e, t)
  | .ok frame => t.handleFrame frame

/-- Forgets the connection; all registrations will be requested again. -/
def resetBindings (t : SubscriptionTable α) : SubscriptionTable α :=
  { t with
    bindings := fun _ => none
    subscriptions := t.subscriptions.map fun s => { s with state := .unsent } }

def disposeAll (t : SubscriptionTable α) : SubscriptionTable α :=
  { t with
    bindings := fun _ => none
    subscriptions := []
    channels := fun id => (t.channels id).map Channel.close }

/-- Takes the next value from the channel of a registration whose receiver is still there. -/
def receive (t : SubscriptionTable α) (id : Nat) : Option (Received α) × SubscriptionTable α :=
  match (t.channels id).filter (·.hasReceiver) with
  | none => (none, t)
  | some channel =>
    let (received, channel) := channel.receive
    (some received, t.setChannel id channel)

/-- Drops the receiver of a registration, and tells whether it was there. -/
def dropReceiver (t : SubscriptionTable α) (id : Nat) : Bool × SubscriptionTable α :=
  match (t.channels id).filter (·.hasReceiver) with
  | none => (false, t)
  | some channel => (true, t.setChannel id channel.dropReceiver)

end SubscriptionTable
end PerpDex
