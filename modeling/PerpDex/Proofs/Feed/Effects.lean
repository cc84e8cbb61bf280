import PerpDex.Proofs.Feed.Routing

/-! What an inbound frame changes. A table after a frame is read off its report: a refusal leaves
everything as it was, a publication adds one value to one channel, and a confirmation writes one state
and one binding. -/
namespace PerpDex

theorem Frame.parse?_of_read_eq_error {text : String} {e : Error} (unread : read text = .error e) :
    Json.parse? text = none ∧ e = .malformedFrame := by
  unfold read at unread
  split at unread
  · exact ⟨‹_›, (Except.error.inj unread).symm⟩
  · cases unread

/-- The owner decides before the payload. -/
theorem NotifiedAccount.toInfo_cases (account : NotifiedAccount) (address : Address) :
    Address.ofText? account.owner = none ∧
        account.toInfo address = .error (.invalidAddress account.owner) ∨
      Base64.decode? account.payload = none ∧ account.toInfo address = .error .malformedBase64 ∨
      ∃ info, account.toInfo address = .ok info := by
  unfold toInfo
  split
  · exact .inl ⟨‹_›, rfl⟩
  · split
    · exact .inr (.inl ⟨‹_›, rfl⟩)
    · exact .inr (.inr ⟨_, rfl⟩)

namespace SubscriptionTable

variable {α : Type} {t t' : SubscriptionTable α} {log : List Event} {text : String}
  {result : Except Error Dispatch}

def registrations (t : SubscriptionTable α) :
    List (Nat × Address × (AccountInfo → Except Error α)) :=
  t.subscriptions.map fun s => (s.id, s.address, s.decode)

theorem subscriptions_send (t : SubscriptionTable α) (id : Nat) (value : α) :
    (t.send id value).subscriptions = t.subscriptions := by
  obtain ⟨channels, sent⟩ := exists_channels_send t id value
  rw [sent]

theorem Effect.registrations_eq (effect : Effect t text result t') :
    t'.registrations = t.registrations := by
  cases effect with
  | unreadable | ignored | rejected | dangling | refused => rfl
  | confirmed transport read split => simp [registrations, bound, split]
  | published => rw [registrations, subscriptions_send, registrations]

/-- Why a frame is refused. Only the last case lets the error be any, the one that the decoder of the
registration gives. -/
inductive Refused (t : SubscriptionTable α) (text : String) : Error → Prop where
  | frame (unread : Json.parse? text = none) : Refused t text .malformedFrame
  | owner {n : Notification} {s : Subscription α} (notifies : t.Notifies text n s)
      (unread : Address.ofText? n.account.owner = none) :
      Refused t text (.invalidAddress n.account.owner)
  | payload {n : Notification} {s : Subscription α} (notifies : t.Notifies text n s)
      (unread : Base64.decode? n.account.payload = none) : Refused t text .malformedBase64
  | value {n : Notification} {s : Subscription α} {info : AccountInfo} {e : Error}
      (notifies : t.Notifies text n s) (read : n.account.toInfo s.address = .ok info)
      (fails : s.decode info = .error e) : Refused t text e

structure Published (t : SubscriptionTable α) (text : String) (id : Nat) (slot : UInt64)
    (t' : SubscriptionTable α) : Prop where
  sent : ∃ n s value channel channel', t.Notifies text n s ∧ n.slot = slot ∧ s.id = id ∧
    (n.account.toInfo s.address).bind s.decode = .ok value ∧
    t.channels id = some channel ∧ t'.channels id = some channel' ∧ channel.Sent value channel'
  others : ∀ other ≠ id, t'.channels other = t.channels other
  rest : t' = { t with channels := t'.channels }

/-- One registration went from waiting for the answer in the frame to being confirmed. -/
structure Confirmed (t : SubscriptionTable α) (text : String) (id : Nat) (transport : UInt64)
    (t' : SubscriptionTable α) : Prop where
  moved : ∃ request before s after, Frame.read text = .ok (.confirmation request transport) ∧
    t.subscriptions = before ++ s :: after ∧ s.id = id ∧ s.state = .requested request.toNat ∧
    t'.subscriptions = before ++ { s with state := .confirmed transport } :: after ∧
    (∀ other ∈ before ++ after, other.id ≠ id) ∧ t'.bindings transport = some before.length
  others : ∀ other ≠ transport, t'.bindings other = t.bindings other
  rest : t' = { t with subscriptions := t'.subscriptions, bindings := t'.bindings }

/-- The table after a frame, by what is reported of it. -/
def Reported (t : SubscriptionTable α) (text : String) :
    Except Error Dispatch → SubscriptionTable α → Prop
  | .error e, t' => t.Refused text e ∧ t' = t
  | .ok .ignored, t' => t' = t
  | .ok (.rejected _ _), t' => t' = t
  | .ok (.published id slot), t' => t.Published text id slot t'
  | .ok (.confirmed id transport), t' => t.Confirmed text id transport t'

theorem Refused.of_notifies {n : Notification} {s : Subscription α} {e : Error}
    (notifies : t.Notifies text n s)
    (fails : (n.account.toInfo s.address).bind s.decode = .error e) : t.Refused text e := by
  obtain ⟨unread, toInfo⟩ | ⟨unread, toInfo⟩ | ⟨info, toInfo⟩ := n.account.toInfo_cases s.address <;>
    rw [toInfo] at fails
  · obtain rfl := Except.error.inj fails
    exact .owner notifies unread
  · obtain rfl := Except.error.inj fails
    exact .payload notifies unread
  · exact .value notifies toInfo fails

theorem Published.of_send (supplied : Supplied t) {n : Notification} {s : Subscription α} {value : α}
    (notifies : t.Notifies text n s)
    (decodes : (n.account.toInfo s.address).bind s.decode = .ok value) :
    t.Published text s.id n.slot (t.send s.id value) := by
  obtain ⟨⟨channel, channel', before, behind, sent⟩, others, rest⟩ :=
    supplied.delivered notifies.mem value
  exact ⟨⟨n, s, value, channel, channel', notifies, rfl, rfl, decodes, before, behind, sent⟩,
    others, rest⟩

theorem Ordered.id_ne (ordered : Ordered t) {before after : List (Subscription α)}
    {s : Subscription α} (split : t.subscriptions = before ++ s :: after) :
    ∀ other ∈ before ++ after, other.id ≠ s.id := by
  have distinct := ordered.ids_increasing.nodup
  rw [ids, split, List.map_append, List.map_cons, List.nodup_middle, ← List.map_append,
    List.nodup_cons] at distinct
  intro other member same
  exact distinct.1 (same ▸ List.mem_map_of_mem member)

theorem Confirmed.of_waits (ordered : Ordered t) {before after : List (Subscription α)}
    {s : Subscription α} {request transport : UInt64}
    (read : Frame.read text = .ok (.confirmation request transport))
    (split : t.subscriptions = before ++ s :: after) (waits : s.state = .requested request.toNat) :
    t.Confirmed text s.id transport (t.bound before s after transport) where
  moved := ⟨request, before, s, after, read, split, rfl, waits, rfl, ordered.id_ne split, if_pos rfl⟩
  others _ different := if_neg different
  rest := rfl

theorem Effect.reported (history : History log t) (effect : Effect t text result t') :
    t.Reported text result t' := by
  cases effect with
  | unreadable read =>
    obtain ⟨unread, rfl⟩ := Frame.parse?_of_read_eq_error read
    exact ⟨.frame unread, rfl⟩
  | ignored | rejected => rfl
  | confirmed transport read split waits => exact .of_waits history.ordered read split waits
  | dangling bound outside =>
    obtain ⟨s, here, -⟩ := history.consistent.bound_confirmed _ _ bound
    rw [outside] at here
    cases here
  | refused notifies fails => exact ⟨.of_notifies notifies fails, rfl⟩
  | published notifies decodes => exact .of_send history.supplied notifies decodes

/-- A frame changes no more of a table than is reported of it, whatever the frame holds and however
the table came about. Frames never touch what was registered. -/
theorem handle_reported (history : History log t) (text : String) :
    t.Reported text (t.handle text).1 (t.handle text).2 ∧
      (t.handle text).2.registrations = t.registrations :=
  ⟨(Effect.handle t text).reported history, (Effect.handle t text).registrations_eq⟩

/-- A notification is published to the later of two registrations under one transport id, and one with
an unreadable owner changes nothing. An answer to the second request confirms the registration that
sent it, and nothing is sent. -/
theorem handle_of_reused :
    let unowned := "\x7b\"method\":\"accountNotification\",\"params\":[[[77],[[\"\",\"\"]," ++
      "false,5,\"0\",0]],900]\x7d"
    let answer := "\x7b\"id\":2,\"result\":900\x7d"
    ((reused.2.handle noticeText).1 = .ok (.published 2 77) ∧
      ∃ channel channel', reused.2.channels 2 = some channel ∧
        (reused.2.handle noticeText).2.channels 2 = some channel' ∧ channel.Sent 5 channel') ∧
      ((reused.2.handle unowned).1 = .error (.invalidAddress "0") ∧
        (reused.2.handle unowned).2 = reused.2) ∧
      (reconnected.2.handle answer).1 = .ok (.confirmed 1 900) ∧
        (reconnected.2.handle answer).2.channels = reconnected.2.channels := by
  intro unowned answer
  refine ⟨?_, ?_, ?_⟩
  · have report : (reused.2.handle noticeText).1 = .ok (.published 2 77) := by decide +kernel
    obtain ⟨reported, -⟩ := handle_reported history_reused noticeText
    rw [report] at reported
    obtain ⟨n, s, value, channel, channel', notifies, -, -, decodes, before, behind, sent⟩ :=
      reported.sent
    obtain rfl : notice = n := by simpa [read_noticeText] using notifies.read
    rw [(subscriptions_reused.2 s notifies.mem).2, Except.ok.injEq] at decodes
    exact ⟨report, channel, channel', before, behind, decodes ▸ sent⟩
  · have report : (reused.2.handle unowned).1 = .error (.invalidAddress "0") := by decide +kernel
    obtain ⟨reported, -⟩ := handle_reported history_reused unowned
    rw [report] at reported
    exact ⟨report, reported.2⟩
  · have history : History reconnected.1 reconnected.2 := (History.new .processed).run _
    have report : (reconnected.2.handle answer).1 = .ok (.confirmed 1 900) := by decide +kernel
    obtain ⟨reported, -⟩ := handle_reported history answer
    rw [report] at reported
    refine ⟨report, ?_⟩
    rw [reported.rest]

end SubscriptionTable
end PerpDex
