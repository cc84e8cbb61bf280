import PerpDex.Proofs.Feed.Delivery
import PerpDex.Proofs.Feed.Requests

/-! Where notifications go. A bound transport id leads to the registration that was confirmed under
it last, so no notification is lost on an index that is out of date. Where several registrations were
confirmed under one transport id, only the last of them is served, though all of them stand as
confirmed. -/
namespace PerpDex.SubscriptionTable

variable {α : Type} {t t' : SubscriptionTable α} {log : List Event} {event : Event}

/-- A transport id is bound to the registration confirmed under it last, and not bound if there is
none. -/
structure Routed (log : List Event) (t : SubscriptionTable α) : Prop where
  holder : ∀ transport position, t.bindings transport = some position →
    ∃ s, t.subscriptions[position]? = some s ∧ s.state = .confirmed transport ∧
      confirmedLast transport log = some s.id
  nobody : ∀ transport, t.bindings transport = none →
    confirmedLast transport log = none ∧ ∀ s ∈ t.subscriptions, s.state ≠ .confirmed transport

namespace Routed

theorem taken (routed : Routed log t) (subscriptions : List Nat) (requests : List Request) :
    Routed (.requested subscriptions requests :: log) t.takeUnsent.2 := by
  constructor
  · intro transport position isBound
    obtain ⟨s, here, state, last⟩ := routed.holder transport position isBound
    exact ⟨s, (confirmed_requestUnsent _ _ position s transport state).mpr here, state, last⟩
  · intro transport free
    obtain ⟨last, none⟩ := routed.nobody transport free
    refine ⟨last, fun s member state => ?_⟩
    obtain ⟨position, here⟩ := List.mem_iff_getElem?.mp member
    have before := (confirmed_requestUnsent _ _ position s transport state).mp here
    exact none s (List.mem_of_getElem? before) state

theorem confirmed (routed : Routed log t) {before after : List (Subscription α)}
    {s : Subscription α} {request : UInt64} (transport : UInt64)
    (split : t.subscriptions = before ++ s :: after) (waits : s.state = .requested request.toNat) :
    Routed (.confirmed request s.id transport :: log) (t.bound before s after transport) := by
  have replaced : (t.bound before s after transport).subscriptions =
      t.subscriptions.set before.length { s with state := .confirmed transport } := by
    simp [bound, split]
  have own : t.subscriptions[before.length]? = some s := by simp [split]
  constructor
  · intro other position isBound
    by_cases same : other = transport
    · subst same
      obtain rfl : before.length = position := by simpa [bound, bindTo] using isBound
      exact ⟨{ s with state := .confirmed other }, by simp [bound], rfl, by simp [confirmedLast]⟩
    · have isBound : t.bindings other = some position := by simpa [bound, bindTo, same] using isBound
      obtain ⟨holder, here, state, last⟩ := routed.holder other position isBound
      have elsewhere : before.length ≠ position := by
        rintro rfl
        rw [own, Option.some.injEq] at here
        subst here
        rw [waits] at state
        cases state
      refine ⟨holder, ?_, state, ?_⟩
      · rw [replaced, List.getElem?_set_ne elsewhere, here]
      · simpa [confirmedLast, Ne.symm same] using last
  · intro other free
    have different : other ≠ transport := by
      rintro rfl
      simp [bound, bindTo] at free
    have free : t.bindings other = none := by simpa [bound, bindTo, different] using free
    obtain ⟨last, none⟩ := routed.nobody other free
    refine ⟨by simpa [confirmedLast, Ne.symm different] using last, fun member inside => ?_⟩
    rw [replaced] at inside
    rcases List.mem_or_eq_of_mem_set inside with old | rfl
    · exact none member old
    · simpa using Ne.symm different

theorem unbound (event : Event) (unbinds : event.unbinds)
    (free : ∀ transport, t.bindings transport = none)
    (none : ∀ s ∈ t.subscriptions, s.state = .unsent) : Routed (event :: log) t := by
  have forgets : ∀ transport, confirmedLast transport (event :: log) = .none := by
    intro transport
    cases event with
    | reset | disposed => rfl
    | requested | confirmed | other => exact absurd unbinds id
  constructor
  · intro transport position isBound
    rw [free transport] at isBound
    cases isBound
  · intro transport _
    refine ⟨forgets transport, fun s member state => ?_⟩
    rw [none s member] at state
    cases state

theorem change (routed : Routed log t) (change : Change t event t') :
    Routed (event :: log) t' := by
  cases change with
  | channels => exact ⟨routed.holder, routed.nobody⟩
  | registered address decode =>
    constructor
    · intro transport position isBound
      obtain ⟨s, here, state, last⟩ := routed.holder transport position isBound
      have inside := (List.getElem?_eq_some_iff.mp here).1
      exact ⟨s, by rw [List.getElem?_append_left inside, here], state, last⟩
    · intro transport free
      obtain ⟨last, none⟩ := routed.nobody transport free
      refine ⟨last, fun s member => ?_⟩
      rcases List.mem_append.mp member with old | isNew
      · exact none s old
      · simp [List.mem_singleton.mp isNew]
  | taken => exact routed.taken _ _
  | confirmed request transport split waits => exact routed.confirmed transport split waits
  | reset => exact .unbound .reset trivial (fun _ => rfl) (by simp [resetBindings])
  | disposed => exact .unbound .disposed trivial (fun _ => rfl) (by simp [disposeAll])

end Routed

theorem History.routed (history : History log t) : Routed log t := by
  induction history with
  | new => exact ⟨nofun, fun transport _ => ⟨rfl, nofun⟩⟩
  | step _ step ih => exact ih.change (.apply _ step)

structure Consistent (t : SubscriptionTable α) : Prop where
  ids_increasing : t.ids.Pairwise (· < ·)
  id_le : ∀ id ∈ t.ids, id ≤ t.registered
  requests_differ : t.subscriptions.Pairwise fun a b =>
    ∀ request, a.state = .requested request → b.state ≠ .requested request
  request_le : ∀ s ∈ t.subscriptions, ∀ request, s.state = .requested request →
    request ≤ t.requested
  bound_confirmed : ∀ transport position, t.bindings transport = some position →
    ∃ s, t.subscriptions[position]? = some s ∧ s.state = .confirmed transport

theorem History.consistent (history : History log t) : Consistent t where
  ids_increasing := history.ordered.ids_increasing
  id_le := history.ordered.id_le
  requests_differ := by
    have distinct := history.accounted.pending_nodup
    rw [← history.accounted.awaited, List.Nodup, List.pairwise_filterMap] at distinct
    refine distinct.imp fun differ request waits waits' => ?_
    have own : ∀ s : Subscription α, s.state = .requested request → s.awaited? = some request :=
      fun s state => by rw [Subscription.awaited?, state]
    exact differ request (own _ waits) request (own _ waits') rfl
  request_le s member request state :=
    history.accounted.pending_le request
      ((mem_pending_iff history.accounted).mpr ⟨s, member, state⟩)
  bound_confirmed transport position isBound := by
    obtain ⟨s, here, state, -⟩ := history.routed.holder transport position isBound
    exact ⟨s, here, state⟩

theorem handle_notification (t : SubscriptionTable α) {text : String} {n : Notification}
    (read : Frame.read text = .ok (.notification n)) (method : n.method = "accountNotification") :
    t.handle text = t.publish n := by
  rw [handle, read]
  exact if_pos method

theorem Routed.publish_none (routed : Routed log t) {n : Notification}
    (last : confirmedLast n.transport log = none) : t.publish n = (.ok .ignored, t) := by
  cases isBound : t.bindings n.transport with
  | none => rw [publish, isBound]
  | some position =>
    obtain ⟨s, -, -, confirmed⟩ := routed.holder n.transport position isBound
    rw [last] at confirmed
    cases confirmed

theorem Routed.publish_some (routed : Routed log t) {n : Notification} {id : Nat}
    (last : confirmedLast n.transport log = some id) :
    ∃ s ∈ t.subscriptions, s.id = id ∧ s.state = .confirmed n.transport ∧
      t.publish n = match (n.account.toInfo s.address).bind s.decode with
        | .error e => (.error e, t)
        | .ok value => (.ok (.published id n.slot), t.send id value) := by
  cases isBound : t.bindings n.transport with
  | none =>
    rw [(routed.nobody n.transport isBound).1] at last
    cases last
  | some position =>
    obtain ⟨s, here, state, confirmed⟩ := routed.holder n.transport position isBound
    obtain rfl : s.id = id := Option.some.inj (confirmed.symm.trans last)
    refine ⟨s, List.mem_of_getElem? here, rfl, state, ?_⟩
    cases decoded : (n.account.toInfo s.address).bind s.decode <;>
      simp only [publish, isBound, here, decoded]

/-- Where a registration stands as confirmed, it or another one was the last to be confirmed under
its transport id, and still stands so. -/
theorem Routed.exists_holder (routed : Routed log t) {s : Subscription α}
    (member : s ∈ t.subscriptions) {transport : UInt64} (state : s.state = .confirmed transport) :
    ∃ holder ∈ t.subscriptions, holder.state = .confirmed transport ∧
      confirmedLast transport log = some holder.id := by
  cases isBound : t.bindings transport with
  | none => exact absurd state ((routed.nobody transport isBound).2 s member)
  | some position =>
    obtain ⟨holder, here, state, last⟩ := routed.holder transport position isBound
    exact ⟨holder, List.mem_of_getElem? here, state, last⟩

theorem Ordered.eq_of_id_eq (ordered : Ordered t) {a b : Subscription α}
    (left : a ∈ t.subscriptions) (right : b ∈ t.subscriptions) (same : a.id = b.id) : a = b :=
  List.inj_on_of_nodup_map ordered.ids_increasing.nodup left right same

/-- Two registrations for one account whose requests are answered with one transport id. -/
def reused : List Event × SubscriptionTable UInt64 :=
  run [] (new .processed) [.register .zero lamports, .register .zero lamports, .takeUnsent,
    .handle "\x7b\"id\":1,\"result\":900\x7d", .handle "\x7b\"id\":2,\"result\":900\x7d"]

theorem history_reused : History reused.1 reused.2 := (History.new .processed).run _

theorem confirmedLast_reused : confirmedLast 900 reused.1 = some 2 := by
  decide +kernel

def notice : Notification :=
  ⟨"accountNotification", 77, ⟨"", false, 5, "11111111111111111111111111111111", 0⟩, 900⟩

def noticeText : String :=
  "\x7b\"method\":\"accountNotification\",\"params\":[[[77],[[\"\",\"\"]," ++
    "false,5,\"11111111111111111111111111111111\",0]],900]\x7d"

theorem read_noticeText : Frame.read noticeText = .ok (.notification notice) := by
  decide +kernel

/-- Both registrations stand as confirmed and can decode the notification. -/
theorem subscriptions_reused :
    reused.2.ids = [1, 2] ∧ ∀ s ∈ reused.2.subscriptions, s.state = .confirmed 900 ∧
      (notice.account.toInfo s.address).bind s.decode = .ok 5 := by
  decide +kernel

theorem exists_reused {id : Nat} (listed : id ∈ [1, 2]) :
    ∃ s ∈ reused.2.subscriptions, s.id = id := by
  rw [← subscriptions_reused.1] at listed
  exact List.mem_map.mp listed

/-- A notification is for the registration confirmed last under its transport id, and what this makes
of the account reaches its channel and no other. -/
theorem handle_of_confirmedLast (history : History log t) {text : String} {n : Notification}
    (read : Frame.read text = .ok (.notification n)) (method : n.method = "accountNotification")
    {id : Nat} (last : confirmedLast n.transport log = some id) :
    ∃ s ∈ t.subscriptions, s.id = id ∧ s.state = .confirmed n.transport ∧
      (t.handle text = match (n.account.toInfo s.address).bind s.decode with
        | .error e => (.error e, t)
        | .ok value => (.ok (.published id n.slot), t.send id value)) ∧
      (∀ value, (n.account.toInfo s.address).bind s.decode = .ok value →
        t.Delivered id value (t.handle text).2) ∧
      ∀ other ≠ id, (t.handle text).2.channels other = t.channels other := by
  rw [handle_notification t read method]
  obtain ⟨s, member, rfl, state, published⟩ := history.routed.publish_some last
  refine ⟨s, member, rfl, state, published, fun value decodes => ?_, fun other different => ?_⟩
  · rw [published, decodes]
    exact history.supplied.delivered member value
  · rw [published]
    split
    · rfl
    · exact channels_send t _ different

/-- Ids and request ids do not repeat, and all bindings are to registrations confirmed under them. So
a notification goes to one registration at most, the one confirmed last under its transport id since
the bindings were dropped, and is passed over if there is none. What the registration makes of the
account reaches its channel. -/
theorem notifications_of_history (history : History log t) :
    Consistent t ∧
      ∀ text n, Frame.read text = .ok (.notification n) → n.method = "accountNotification" →
        (confirmedLast n.transport log = none → t.handle text = (.ok .ignored, t)) ∧
          ∀ id, confirmedLast n.transport log = some id →
            ∃ s ∈ t.subscriptions, s.id = id ∧ s.state = .confirmed n.transport ∧
              (t.handle text = match (n.account.toInfo s.address).bind s.decode with
                | .error e => (.error e, t)
                | .ok value => (.ok (.published id n.slot), t.send id value)) ∧
              (∀ value, (n.account.toInfo s.address).bind s.decode = .ok value →
                t.Delivered id value (t.handle text).2) ∧
              ∀ other ≠ id, (t.handle text).2.channels other = t.channels other := by
  refine ⟨history.consistent, fun text n read method => ⟨fun last => ?_, fun id last => ?_⟩⟩
  · rw [handle_notification t read method, history.routed.publish_none last]
  · exact handle_of_confirmedLast history read method last

theorem notifications_of_reused :
    History reused.1 reused.2 ∧ Frame.read noticeText = .ok (.notification notice) ∧
      confirmedLast 900 reused.1 = some 2 ∧
      (reused.2.handle noticeText).1 = .ok (.published 2 77) ∧
      reused.2.Delivered 2 5 (reused.2.handle noticeText).2 ∧
      (reused.2.handle noticeText).2.channels 1 = reused.2.channels 1 := by
  obtain ⟨-, notified⟩ := notifications_of_history history_reused
  obtain ⟨s, member, -, -, handled, delivered, others⟩ :=
    (notified noticeText notice read_noticeText rfl).2 2 confirmedLast_reused
  have decodes := (subscriptions_reused.2 s member).2
  refine ⟨history_reused, read_noticeText, confirmedLast_reused, ?_, delivered 5 decodes,
    others 1 (by decide)⟩
  rw [handled, decodes]
  rfl

/-- Every notification for a transport id that the registration can decode is sent to it, and the value
reaches its channel. -/
def Served (t : SubscriptionTable α) (transport : UInt64) (s : Subscription α) : Prop :=
  ∀ text n value, Frame.read text = .ok (.notification n) → n.method = "accountNotification" →
    n.transport = transport → (n.account.toInfo s.address).bind s.decode = .ok value →
      t.handle text = (.ok (.published s.id n.slot), t.send s.id value) ∧
        t.Delivered s.id value (t.handle text).2

/-- No notification for a transport id reaches the registration. -/
def CutOff (t : SubscriptionTable α) (transport : UInt64) (s : Subscription α) : Prop :=
  ∀ text n, Frame.read text = .ok (.notification n) → n.method = "accountNotification" →
    n.transport = transport →
      (∀ slot, (t.handle text).1 ≠ .ok (.published s.id slot)) ∧
        (t.handle text).2.channels s.id = t.channels s.id

theorem served_of_confirmedLast (history : History log t) {s : Subscription α}
    (member : s ∈ t.subscriptions) {transport : UInt64}
    (last : confirmedLast transport log = some s.id) : t.Served transport s := by
  rintro text n value read method rfl decodes
  obtain ⟨holder, inside, own, -, handled, delivered, -⟩ :=
    handle_of_confirmedLast history read method last
  obtain rfl := history.ordered.eq_of_id_eq inside member own
  exact ⟨by rw [handled, decodes], delivered value decodes⟩

theorem cutOff_of_confirmedLast (history : History log t) {s : Subscription α} {transport : UInt64}
    {id : Nat} (last : confirmedLast transport log = some id) (different : s.id ≠ id) :
    t.CutOff transport s := by
  rintro text n read method rfl
  obtain ⟨holder, -, -, -, handled, -, others⟩ := handle_of_confirmedLast history read method last
  refine ⟨fun slot same => ?_, others s.id different⟩
  rw [handled] at same
  split at same
  · cases same
  · simp only [Except.ok.injEq, Dispatch.published.injEq] at same
    exact different same.1.symm

/-- Of the registrations confirmed under one transport id, the one confirmed last is served and all
others are cut off, though they stand as confirmed. A registration that has its transport id for
itself is served. -/
theorem confirmed_of_history (history : History log t) {s : Subscription α}
    (member : s ∈ t.subscriptions) {transport : UInt64} (state : s.state = .confirmed transport) :
    (∃ holder ∈ t.subscriptions, holder.state = .confirmed transport ∧
        confirmedLast transport log = some holder.id) ∧
      (confirmedLast transport log = some s.id → t.Served transport s) ∧
      (confirmedLast transport log ≠ some s.id → t.CutOff transport s) ∧
      ((∀ other ∈ t.subscriptions, other.state = .confirmed transport → other.id = s.id) →
        t.Served transport s) := by
  have holds := history.routed.exists_holder member state
  refine ⟨holds, served_of_confirmedLast history member, fun displaced => ?_, fun alone => ?_⟩
  · obtain ⟨holder, -, -, last⟩ := holds
    refine cutOff_of_confirmedLast history last fun same => ?_
    exact displaced (same ▸ last)
  · obtain ⟨holder, inside, confirmed, last⟩ := holds
    exact served_of_confirmedLast history member (alone holder inside confirmed ▸ last)

theorem confirmed_of_reused :
    History reused.1 reused.2 ∧
      ∃ first ∈ reused.2.subscriptions, first.state = .confirmed 900 ∧ reused.2.CutOff 900 first ∧
        ∃ second ∈ reused.2.subscriptions, second.state = .confirmed 900 ∧
          reused.2.Served 900 second := by
  obtain ⟨-, confirmed⟩ := subscriptions_reused
  obtain ⟨first, member, one⟩ := exists_reused (show 1 ∈ [1, 2] by decide)
  obtain ⟨second, member', two⟩ := exists_reused (show 2 ∈ [1, 2] by decide)
  refine ⟨history_reused, first, member, (confirmed first member).1, ?_, second, member',
    (confirmed second member').1, ?_⟩
  · obtain ⟨-, -, displaced, -⟩ :=
      confirmed_of_history history_reused member (confirmed first member).1
    exact displaced (by rw [confirmedLast_reused, one]; decide)
  · obtain ⟨-, served, -⟩ := confirmed_of_history history_reused member' (confirmed second member').1
    exact served (by rw [confirmedLast_reused, two])

/-- Not every registration that stands as confirmed is notified. -/
theorem confirmed_not_notified :
    ¬∀ (log : List Event) (t : SubscriptionTable UInt64), History log t →
      ∀ s ∈ t.subscriptions, ∀ transport, s.state = .confirmed transport →
        ∀ text n value, Frame.read text = .ok (.notification n) → n.method = "accountNotification" →
          n.transport = transport → (n.account.toInfo s.address).bind s.decode = .ok value →
            (t.handle text).1 = .ok (.published s.id n.slot) := by
  intro notified
  obtain ⟨first, member, one⟩ := exists_reused (show 1 ∈ [1, 2] by decide)
  obtain ⟨state, decodes⟩ := subscriptions_reused.2 first member
  have published := notified _ _ history_reused first member 900 state noticeText notice 5
    read_noticeText rfl rfl decodes
  have displaced : first.id ≠ 2 := by rw [one]; decide
  have cut := cutOff_of_confirmedLast history_reused confirmedLast_reused displaced
  exact (cut noticeText notice read_noticeText rfl rfl).1 _ published

end PerpDex.SubscriptionTable
