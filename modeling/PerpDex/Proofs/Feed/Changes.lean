import PerpDex.Feed.History

/-! What a step can do to a table: there are six kinds of changes, and everything that holds along a
history is proved kind by kind. Frames either leave registrations and bindings as they are, or
confirm one registration that waits. -/
namespace PerpDex

def Subscription.awaited? {α : Type} (s : Subscription α) : Option Nat :=
  match s.state with
  | .requested request => some request
  | _ => none

namespace SubscriptionTable

variable {α : Type} {t t' : SubscriptionTable α} {log : List Event} {event : Event}

/-- The table with a registration confirmed that stands behind the registrations `before`. -/
def bound (t : SubscriptionTable α) (before : List (Subscription α)) (s : Subscription α)
    (after : List (Subscription α)) (transport : UInt64) : SubscriptionTable α :=
  { t with
    subscriptions := before ++ { s with state := .confirmed transport } :: after
    bindings := bindTo t.bindings transport before.length }

inductive Change (t : SubscriptionTable α) : Event → SubscriptionTable α → Prop where
  | channels (channelCapacity : Nat) (channels : Nat → Option (Channel α)) :
      Change t .other { t with channelCapacity, channels }
  | registered (address : Address) (decode : AccountInfo → Except Error α)
      (channels : Nat → Option (Channel α)) :
      Change t .other { t with
        registered := t.registered + 1
        subscriptions := t.subscriptions ++ [⟨t.registered + 1, address, .unsent, decode⟩]
        channels }
  | taken : Change t (.requested (t.unsent.map (·.id)) t.takeUnsent.1) t.takeUnsent.2
  | confirmed {before after : List (Subscription α)} {s : Subscription α} (request transport : UInt64)
      (split : t.subscriptions = before ++ s :: after)
      (waits : s.state = .requested request.toNat) :
      Change t (.confirmed request s.id transport) (t.bound before s after transport)
  | reset : Change t .reset t.resetBindings
  | disposed : Change t .disposed t.disposeAll

theorem waiting?_eq_none {request : UInt64} (waiting : t.waiting? request = none) :
    ∀ s ∈ t.subscriptions, s.state ≠ .requested request.toNat := by
  simpa [waiting?] using waiting

theorem waiting?_eq_some {request : UInt64} {position : Nat}
    (waiting : t.waiting? request = some position) :
    ∃ before s after, t.subscriptions = before ++ s :: after ∧ before.length = position ∧
      s.state = .requested request.toNat := by
  obtain ⟨inside, waits, -⟩ := List.findIdx?_eq_some_iff_getElem.mp waiting
  refine ⟨t.subscriptions.take position, t.subscriptions[position],
    t.subscriptions.drop (position + 1), ?_, ?_, by simpa using waits⟩
  · simp
  · rw [List.length_take]
    omega

/-- A confirmation is for a registration that waits for it, or is passed over. -/
theorem confirm_cases (t : SubscriptionTable α) (request transport : UInt64) :
    (∀ s ∈ t.subscriptions, s.state ≠ .requested request.toNat) ∧
        t.confirm request transport = (.ignored, t) ∨
      ∃ before s after, t.subscriptions = before ++ s :: after ∧
        s.state = .requested request.toNat ∧
        t.confirm request transport = (.confirmed s.id transport, t.bound before s after transport) := by
  cases waiting : t.waiting? request with
  | none => exact .inl ⟨waiting?_eq_none waiting, by rw [confirm, waiting]⟩
  | some position =>
    obtain ⟨before, s, after, split, rfl, waits⟩ := waiting?_eq_some waiting
    refine .inr ⟨before, s, after, split, waits, ?_⟩
    simp [confirm, waiting, split, bound]

theorem exists_channels_send (t : SubscriptionTable α) (id : Nat) (value : α) :
    ∃ channels, t.send id value = { t with channels } := by
  cases existing : t.channels id with
  | none => exact ⟨t.channels, by rw [send, existing]⟩
  | some channel => exact ⟨_, by rw [send, existing]; rfl⟩

/-- A notification changes channels at most. -/
theorem exists_channels_publish (t : SubscriptionTable α) (n : Notification) :
    ∃ channels, (t.publish n).2 = { t with channels } := by
  rw [publish]
  split
  · exact ⟨t.channels, rfl⟩
  · split
    · exact ⟨t.channels, rfl⟩
    · split
      · exact ⟨t.channels, rfl⟩
      · exact exists_channels_send ..

theorem Change.handle (t : SubscriptionTable α) (text : String) :
    Change t (t.event (.handle text)) (t.apply (.handle text)) := by
  have passed : Change t .other t := .channels t.channelCapacity t.channels
  cases read : Frame.read text with
  | error e =>
    simp only [SubscriptionTable.event, apply, SubscriptionTable.handle, read]
    exact passed
  | ok frame =>
    cases frame with
    | confirmation request transport =>
      rcases confirm_cases t request transport with
        ⟨-, ignored⟩ | ⟨before, s, after, split, waits, confirmed⟩
      · simp only [SubscriptionTable.event, apply, SubscriptionTable.handle, read, handleFrame, ignored]
        exact passed
      · simp only [SubscriptionTable.event, apply, SubscriptionTable.handle, read, handleFrame, confirmed]
        exact .confirmed request transport split waits
    | failure | other =>
      simp only [SubscriptionTable.event, apply, SubscriptionTable.handle, read, handleFrame]
      exact passed
    | notification n =>
      simp only [SubscriptionTable.event, apply, SubscriptionTable.handle, read, handleFrame]
      split
      · obtain ⟨channels, sent⟩ := exists_channels_publish t n
        rw [sent]
        exact .channels t.channelCapacity channels
      · exact passed

/-- Every step changes a table in one of the six ways. -/
theorem Change.apply (t : SubscriptionTable α) (step : Step α) :
    Change t (t.event step) (t.apply step) := by
  cases step with
  | withChannelCapacity capacity => exact .channels (max 1 capacity) t.channels
  | register address decode =>
    simp only [SubscriptionTable.event, SubscriptionTable.apply, register]
    by_cases large : 2 ^ 63 ≤ (Channel.new t.channelCapacity : Channel α).size * slotSize
    · simp only [large, if_true]
      exact .channels t.channelCapacity t.channels
    · simp only [large, if_false]
      exact .registered address decode _
  | takeUnsent => exact .taken
  | handle text => exact .handle t text
  | resetBindings => exact .reset
  | disposeAll => exact .disposed
  | receive id =>
    simp only [SubscriptionTable.event, SubscriptionTable.apply, receive]
    split
    · exact .channels t.channelCapacity t.channels
    · exact .channels t.channelCapacity _
  | dropReceiver id =>
    simp only [SubscriptionTable.event, SubscriptionTable.apply, dropReceiver]
    split
    · exact .channels t.channelCapacity t.channels
    · exact .channels t.channelCapacity _

end SubscriptionTable
end PerpDex
