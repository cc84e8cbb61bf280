import PerpDex.Proofs.Feed.Bookkeeping

/-! How a value reaches a receiver. A notification is sent on the channel of the registration that is
bound to its transport id, and the channel of every registration is there and stays open until all are
disposed of, so what is sent is the newest value of the channel. -/
namespace PerpDex

namespace Channel

variable {α : Type} {c : Channel α}

/-- The publisher is there, and the latest value is kept. -/
structure Ready (c : Channel α) : Prop where
  isOpen : c.isOpen
  room : 0 < c.size

theorem ready_new (capacity : Nat) : (new capacity : Channel α).Ready where
  isOpen := rfl
  room := Nat.pos_of_isPowerOfTwo (Nat.isPowerOfTwo_nextPowerOfTwo capacity)

theorem Ready.send (ready : c.Ready) (a : α) : (c.send a).Ready := by
  unfold Channel.send
  split
  · exact ⟨ready.isOpen, ready.room⟩
  · exact ready

theorem Ready.dropReceiver (ready : c.Ready) : c.dropReceiver.Ready :=
  ⟨ready.isOpen, ready.room⟩

theorem Ready.receive (ready : c.Ready) : c.receive.2.Ready := by
  unfold Channel.receive
  dsimp only
  split
  · exact ⟨ready.isOpen, ready.room⟩
  · split
    · exact ⟨ready.isOpen, ready.room⟩
    · exact ready

/-- One value was sent, and it is the newest one for the receiver. Without a receiver it is lost. -/
structure Sent (c : Channel α) (a : α) (c' : Channel α) : Prop where
  eq_send : c' = c.send a
  count : c'.sent = c.sent + if c.hasReceiver then 1 else 0
  newest : c.hasReceiver → c'.kept.getLast? = some a

theorem Ready.sent (ready : c.Ready) (a : α) : c.Sent a (c.send a) := by
  have room := ready.room
  refine ⟨rfl, ?_, fun there => ?_⟩
  · unfold Channel.send
    split <;> rfl
  · simp only [Channel.send, if_pos there]
    have drop : (c.kept ++ [a]).length - c.size ≤ c.kept.length := by
      rw [List.length_append, List.length_singleton]
      omega
    rw [List.drop_append_of_le_length drop, List.getLast?_concat]

end Channel

namespace SubscriptionTable

variable {α : Type} {t t' : SubscriptionTable α} {log : List Event} {text : String}
  {result : Except Error Dispatch}

/-- The frame notifies of an account under a transport id that is bound to the registration. -/
structure Notifies (t : SubscriptionTable α) (text : String) (n : Notification)
    (s : Subscription α) : Prop where
  read : Frame.read text = .ok (.notification n)
  method : n.method = "accountNotification"
  holder : ∃ position, t.bindings n.transport = some position ∧ t.subscriptions[position]? = some s

theorem Notifies.mem {n : Notification} {s : Subscription α} (notifies : t.Notifies text n s) :
    s ∈ t.subscriptions := by
  obtain ⟨position, -, here⟩ := notifies.holder
  exact List.mem_of_getElem? here

/-- All that a frame can do: what is reported, and the table that comes of it. -/
inductive Effect (t : SubscriptionTable α) (text : String) :
    Except Error Dispatch → SubscriptionTable α → Prop where
  | unreadable {e : Error} (read : Frame.read text = .error e) : Effect t text (.error e) t
  | ignored : Effect t text (.ok .ignored) t
  | rejected (subscription? : Option Nat) (message : String) :
      Effect t text (.ok (.rejected subscription? message)) t
  | confirmed {before after : List (Subscription α)} {s : Subscription α} {request : UInt64}
      (transport : UInt64) (read : Frame.read text = .ok (.confirmation request transport))
      (split : t.subscriptions = before ++ s :: after)
      (waits : s.state = .requested request.toNat) :
      Effect t text (.ok (.confirmed s.id transport)) (t.bound before s after transport)
  | dangling {transport : UInt64} {position : Nat} (bound : t.bindings transport = some position)
      (outside : t.subscriptions[position]? = none) :
      Effect t text (.error (.fault .indexOutOfRange)) t
  | refused {n : Notification} {s : Subscription α} {e : Error} (notifies : t.Notifies text n s)
      (fails : (n.account.toInfo s.address).bind s.decode = .error e) :
      Effect t text (.error e) t
  | published {n : Notification} {s : Subscription α} {value : α} (notifies : t.Notifies text n s)
      (decodes : (n.account.toInfo s.address).bind s.decode = .ok value) :
      Effect t text (.ok (.published s.id n.slot)) (t.send s.id value)

theorem Effect.publish {n : Notification} (read : Frame.read text = .ok (.notification n))
    (method : n.method = "accountNotification") :
    Effect t text (t.publish n).1 (t.publish n).2 := by
  unfold SubscriptionTable.publish
  split
  · exact .ignored
  · rename_i position bound
    split
    · rename_i outside
      exact .dangling bound outside
    · rename_i s here
      have notifies : t.Notifies text n s := ⟨read, method, position, bound, here⟩
      split
      · rename_i fails
        exact .refused notifies fails
      · rename_i decodes
        exact .published notifies decodes

theorem Effect.handle (t : SubscriptionTable α) (text : String) :
    Effect t text (t.handle text).1 (t.handle text).2 := by
  cases read : Frame.read text with
  | error e =>
    rw [SubscriptionTable.handle, read]
    exact .unreadable read
  | ok frame =>
    rw [SubscriptionTable.handle, read]
    cases frame with
    | confirmation request transport =>
      rcases confirm_cases t request transport with
        ⟨-, ignored⟩ | ⟨before, s, after, split, waits, confirmed⟩
      · simp only [handleFrame, ignored]
        exact .ignored
      · simp only [handleFrame, confirmed]
        exact .confirmed transport read split waits
    | failure request? code message => exact .rejected _ message
    | notification n =>
      by_cases method : n.method = "accountNotification"
      · simp only [handleFrame, if_pos method]
        exact .publish read method
      · simp only [handleFrame, if_neg method]
        exact .ignored
    | other => exact .ignored

/-- A value sent on one channel is not seen on another. -/
theorem channels_send (t : SubscriptionTable α) {id other : Nat} (value : α) (different : other ≠ id) :
    (t.send id value).channels other = t.channels other := by
  rw [send]
  split
  · rfl
  · exact if_neg different

/-- Every registration has a channel that is ready. -/
def Supplied (t : SubscriptionTable α) : Prop :=
  ∀ id ∈ t.ids, ∃ channel, t.channels id = some channel ∧ channel.Ready

namespace Supplied

theorem of_eq (supplied : Supplied t) (ids : t'.ids = t.ids) (channels : t'.channels = t.channels) :
    Supplied t' := by
  unfold Supplied
  rwa [ids, channels]

/-- A channel may change as long as it stays ready. -/
theorem setChannel (supplied : Supplied t) {id : Nat} {channel channel' : Channel α}
    (here : t.channels id = some channel) (ready : channel.Ready → channel'.Ready) :
    Supplied (t.setChannel id channel') := by
  intro other member
  obtain ⟨old, there, isReady⟩ := supplied other member
  by_cases same : other = id
  · subst same
    obtain rfl := Option.some.inj (here.symm.trans there)
    exact ⟨channel', if_pos rfl, ready isReady⟩
  · exact ⟨old, (if_neg same).trans there, isReady⟩

theorem send (supplied : Supplied t) (id : Nat) (value : α) : Supplied (t.send id value) := by
  unfold SubscriptionTable.send
  split
  · exact supplied
  · rename_i channel here
    exact supplied.setChannel here fun ready => ready.send value

theorem effect (supplied : Supplied t) (effect : Effect t text result t') : Supplied t' := by
  cases effect with
  | unreadable | ignored | rejected | dangling | refused => exact supplied
  | confirmed transport read split => exact supplied.of_eq (by simp [ids, bound, split]) rfl
  | published => exact supplied.send _ _

theorem register (supplied : Supplied t) (address : Address)
    (decode : AccountInfo → Except Error α) : Supplied (t.apply (.register address decode)) := by
  simp only [SubscriptionTable.apply, SubscriptionTable.register]
  by_cases large : 2 ^ 63 ≤ (Channel.new t.channelCapacity : Channel α).size * slotSize
  · simp only [large, if_true]
    exact supplied
  · simp only [large, if_false]
    intro id member
    have listed : id ∈ t.ids ∨ id = t.registered + 1 := by
      simpa [ids, SubscriptionTable.setChannel] using member
    by_cases isNew : id = t.registered + 1
    · exact ⟨_, if_pos isNew, Channel.ready_new _⟩
    · obtain ⟨channel, here, ready⟩ := supplied id (listed.resolve_right isNew)
      exact ⟨channel, (if_neg isNew).trans here, ready⟩

theorem apply (supplied : Supplied t) (step : Step α) :
    Supplied (t.apply step) := by
  cases step with
  | withChannelCapacity => exact supplied.of_eq rfl rfl
  | register address decode => exact supplied.register address decode
  | takeUnsent => exact supplied.of_eq (map_id_requestUnsent ..) rfl
  | handle text => exact supplied.effect (.handle t text)
  | resetBindings => exact supplied.of_eq (by simp [ids, SubscriptionTable.apply, resetBindings]) rfl
  | disposeAll => exact fun id member => absurd member List.not_mem_nil
  | receive id =>
    simp only [SubscriptionTable.apply, SubscriptionTable.receive]
    split
    · exact supplied
    · rename_i channel here
      exact supplied.setChannel (Option.filter_eq_some_iff.mp here).1 Channel.Ready.receive
  | dropReceiver id =>
    simp only [SubscriptionTable.apply, SubscriptionTable.dropReceiver]
    split
    · exact supplied
    · rename_i channel here
      exact supplied.setChannel (Option.filter_eq_some_iff.mp here).1 Channel.Ready.dropReceiver

end Supplied

theorem History.supplied (history : History log t) : Supplied t := by
  induction history with
  | new => exact nofun
  | step _ step ih => exact ih.apply step

/-- A value reached the channel of one registration, and nothing else changed. -/
structure Delivered (t : SubscriptionTable α) (id : Nat) (value : α) (t' : SubscriptionTable α) :
    Prop where
  sent : ∃ channel channel', t.channels id = some channel ∧ t'.channels id = some channel' ∧
    channel.Sent value channel'
  others : ∀ other ≠ id, t'.channels other = t.channels other
  rest : t' = { t with channels := t'.channels }

theorem Supplied.delivered (supplied : Supplied t) {s : Subscription α} (member : s ∈ t.subscriptions)
    (value : α) : t.Delivered s.id value (t.send s.id value) := by
  obtain ⟨channel, here, ready⟩ := supplied s.id (List.mem_map_of_mem member)
  have sent : t.send s.id value = t.setChannel s.id (channel.send value) := by
    rw [SubscriptionTable.send, here]
  refine ⟨⟨channel, channel.send value, here, ?_, ready.sent value⟩,
    fun other different => channels_send t value different, ?_⟩
  · rw [sent]
    exact if_pos rfl
  · rw [sent]
    rfl

end SubscriptionTable
end PerpDex
