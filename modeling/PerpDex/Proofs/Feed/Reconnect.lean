import Mathlib.Data.List.Perm.Basic
import PerpDex.Proofs.Feed.Routing

/-! Coming back after a lost connection. Once the bindings are dropped and every registration is
requested again, the answers may come in any order: confirmations of different requests under
different transport ids commute in every table, so all orders lead to the same one. -/
namespace PerpDex.SubscriptionTable

variable {α : Type} {t : SubscriptionTable α} {log : List Event}

/-- The table with the registration `s` confirmed, which stands at `position`. -/
def confirmAt (t : SubscriptionTable α) (position : Nat) (s : Subscription α) (transport : UInt64) :
    SubscriptionTable α :=
  { t with
    subscriptions := t.subscriptions.set position { s with state := .confirmed transport }
    bindings := bindTo t.bindings transport position }

theorem confirm_of_waiting_eq_none {request : UInt64} (transport : UInt64)
    (waiting : t.waiting? request = none) : (t.confirm request transport).2 = t := by
  rw [confirm, waiting]

theorem confirm_of_waiting {request : UInt64} (transport : UInt64) {position : Nat}
    (waiting : t.waiting? request = some position) :
    ∃ s, t.subscriptions[position]? = some s ∧ s.state = .requested request.toNat ∧
      (t.confirm request transport).2 = t.confirmAt position s transport := by
  obtain ⟨before, s, after, split, rfl, waits⟩ := waiting?_eq_some waiting
  have here : t.subscriptions[before.length]? = some s := by simp [split]
  refine ⟨s, here, waits, ?_⟩
  simp only [confirm, waiting, here, confirmAt]

/-- A confirmation touches no registration that waits for another answer. -/
theorem waiting?_confirm {request other : UInt64} (different : other ≠ request)
    (transport : UInt64) : (t.confirm request transport).2.waiting? other = t.waiting? other := by
  rcases confirm_cases t request transport with
    ⟨-, ignored⟩ | ⟨before, s, after, split, waits, confirmed⟩
  · rw [ignored]
  · have apart : request.toNat ≠ other.toNat := by
      intro same
      exact different (UInt64.toNat_inj.mp same.symm)
    rw [confirmed, waiting?, waiting?, bound, split]
    simp [List.findIdx?_append, List.findIdx?_cons, waits, apart]

theorem confirmAt_comm (t : SubscriptionTable α) {i j : Nat} (apart : i ≠ j) (a b : Subscription α)
    {transport transport' : UInt64} (transports : transport ≠ transport') :
    (t.confirmAt i a transport).confirmAt j b transport' =
      (t.confirmAt j b transport').confirmAt i a transport := by
  have bindings : bindTo (bindTo t.bindings transport i) transport' j =
      bindTo (bindTo t.bindings transport' j) transport i := by
    funext other
    by_cases first : other = transport
    · subst first
      simp [bindTo, transports]
    · simp [bindTo, first]
  simp only [confirmAt, List.set_comm _ _ apart, bindings]

/-- Confirmations of two requests under two transport ids may change places, in any table. -/
theorem confirm_comm (t : SubscriptionTable α) {request request' transport transport' : UInt64}
    (requests : request ≠ request') (transports : transport ≠ transport') :
    ((t.confirm request transport).2.confirm request' transport').2 =
      ((t.confirm request' transport').2.confirm request transport).2 := by
  have left := waiting?_confirm (t := t) requests transport'
  have right := waiting?_confirm (t := t) requests.symm transport
  cases first : t.waiting? request with
  | none =>
    rw [first] at left
    rw [confirm_of_waiting_eq_none _ first, confirm_of_waiting_eq_none _ left]
  | some i =>
    cases second : t.waiting? request' with
    | none =>
      rw [second] at right
      rw [confirm_of_waiting_eq_none _ second, confirm_of_waiting_eq_none _ right]
    | some j =>
      obtain ⟨a, atI, waits, once⟩ := confirm_of_waiting transport first
      obtain ⟨b, atJ, waits', once'⟩ := confirm_of_waiting transport' second
      obtain ⟨b', atJ', -, twice⟩ := confirm_of_waiting transport' (right.trans second)
      obtain ⟨a', atI', -, twice'⟩ := confirm_of_waiting transport (left.trans first)
      have apart : i ≠ j := by
        rintro rfl
        obtain rfl : a = b := Option.some.inj (atI.symm.trans atJ)
        rw [waits] at waits'
        exact requests (UInt64.toNat_inj.mp (SubscriptionState.requested.inj waits'))
      rw [once, confirmAt, List.getElem?_set_ne apart, atJ] at atJ'
      rw [once', confirmAt, List.getElem?_set_ne apart.symm, atI] at atI'
      obtain rfl := Option.some.inj atJ'
      obtain rfl := Option.some.inj atI'
      rw [twice, twice', once, once', confirmAt_comm t apart a b transports]

/-- The table after the answers to the requests of `order`, one after the other; the request `id` is
confirmed under `transport id`. -/
def confirmAll (transport : Nat → UInt64) (t : SubscriptionTable α) (order : List UInt64) :
    SubscriptionTable α :=
  order.foldl (fun t request => (t.confirm request (transport request.toNat)).2) t

theorem confirmAll_perm (t : SubscriptionTable α) {transport : Nat → UInt64}
    {order order' : List UInt64} (reordered : order.Perm order')
    (distinct : (order.map fun request => transport request.toNat).Nodup) :
    confirmAll transport t order = confirmAll transport t order' := by
  refine reordered.foldl_eq' (fun a left b right t => ?_) t
  by_cases same : a = b
  · rw [same]
  · refine confirm_comm t same fun transports => same ?_
    exact List.inj_on_of_nodup_map distinct left right transports

def settled (transport : Nat → UInt64) (answered : List Nat) (s : Subscription α) : Subscription α :=
  match s.state with
  | .requested id => if id ∈ answered then { s with state := .confirmed (transport id) } else s
  | _ => s

theorem settled_settled (transport : Nat → UInt64) (id : Nat) (answered : List Nat)
    (s : Subscription α) :
    settled transport answered (settled transport [id] s) = settled transport (id :: answered) s := by
  cases state : s.state with
  | unsent | confirmed => simp [settled, state]
  | requested request => by_cases own : request = id <;> simp [settled, state, own]

/-- No two registrations wait for the answer to one request. -/
def Apart (subscriptions : List (Subscription α)) : Prop :=
  subscriptions.Pairwise fun a b =>
    ∀ request, a.state = .requested request → b.state ≠ .requested request

theorem Apart.settled {subscriptions : List (Subscription α)} (apart : Apart subscriptions)
    (transport : Nat → UInt64) (answered : List Nat) :
    Apart (subscriptions.map (settled transport answered)) := by
  have still : ∀ (s : Subscription α) (request : Nat),
      (SubscriptionTable.settled transport answered s).state = .requested request →
        s.state = .requested request := by
    intro s request
    unfold SubscriptionTable.settled
    split
    · split
      · exact nofun
      · exact id
    · exact id
  refine List.pairwise_map.mpr (apart.imp fun differ request waits waits' => ?_)
  exact differ request (still _ _ waits) (still _ _ waits')

theorem subscriptions_confirm (transport : Nat → UInt64) (apart : Apart t.subscriptions)
    (request : UInt64) :
    (t.confirm request (transport request.toNat)).2.subscriptions =
      t.subscriptions.map (settled transport [request.toNat]) := by
  have other : ∀ s : Subscription α, s.state ≠ .requested request.toNat →
      settled transport [request.toNat] s = s := by
    intro s elsewhere
    cases state : s.state with
    | unsent | confirmed => simp [settled, state]
    | requested id =>
      have apart : id ≠ request.toNat := by
        rintro rfl
        exact elsewhere state
      simp [settled, state, apart]
  rcases confirm_cases t request (transport request.toNat) with
    ⟨nobody, ignored⟩ | ⟨before, s, after, split, waits, confirmed⟩
  · rw [ignored, List.map_congr_left fun s member => other s (nobody s member), List.map_id']
  · rw [split, Apart, List.pairwise_append, List.pairwise_cons] at apart
    obtain ⟨-, ⟨behind, -⟩, across⟩ := apart
    have front : before.map (settled transport [request.toNat]) = before := by
      refine (List.map_congr_left fun a member => other a fun waits' => ?_).trans (List.map_id' _)
      exact across a member s List.mem_cons_self _ waits' waits
    have rest : after.map (settled transport [request.toNat]) = after := by
      refine (List.map_congr_left fun b member => other b ?_).trans (List.map_id' _)
      exact behind b member _ waits
    rw [confirmed, bound, split, List.map_append, List.map_cons, front, rest]
    simp [settled, waits]

theorem subscriptions_confirmAll (transport : Nat → UInt64) (apart : Apart t.subscriptions)
    (order : List UInt64) :
    (confirmAll transport t order).subscriptions =
      t.subscriptions.map (settled transport (order.map UInt64.toNat)) := by
  induction order generalizing t with
  | nil =>
    have kept : ∀ s : Subscription α, settled transport [] s = s := by
      intro s
      cases state : s.state <;> simp [settled, state]
    rw [List.map_nil, List.map_congr_left fun s _ => kept s, List.map_id']
    rfl
  | cons request order ih =>
    have once := subscriptions_confirm transport apart request
    have still := apart.settled transport [request.toNat]
    rw [← once] at still
    rw [confirmAll, List.foldl_cons, ← confirmAll, ih still, once, List.map_map]
    exact List.map_congr_left fun s _ => settled_settled ..

/-- Where no registration was requested yet, there is a request for each one, and it waits for the
answer to it. -/
theorem requestUnsent_of_fresh (last : Nat) {subscriptions : List (Subscription α)}
    (fresh : ∀ s ∈ subscriptions, s.state = .unsent) :
    (requestUnsent last subscriptions).1.map (·.address) = subscriptions.map (·.address) ∧
      (requestUnsent last subscriptions).2.1 =
        (subscriptions.zip (requestUnsent last subscriptions).1).map
          fun (s, r) => { s with state := .requested r.id } := by
  induction subscriptions generalizing last with
  | nil => exact ⟨rfl, rfl⟩
  | cons s rest ih =>
    obtain ⟨first, others⟩ := List.forall_mem_cons.mp fresh
    obtain ⟨addresses, waiting⟩ := ih (last + 1) others
    simp only [requestUnsent, first, if_true]
    exact ⟨congrArg (s.address :: ·) addresses, congrArg (_ :: ·) waiting⟩

theorem addresses_reset (t : SubscriptionTable α) :
    t.resetBindings.takeUnsent.1.map (·.address) = t.subscriptions.map (·.address) := by
  refine (requestUnsent_of_fresh t.requested ?_).1.trans ?_
  · simp [resetBindings]
  · simp [resetBindings]

theorem subscriptions_reset (t : SubscriptionTable α) :
    t.resetBindings.takeUnsent.2.subscriptions =
      (t.subscriptions.zip t.resetBindings.takeUnsent.1).map
        fun (s, r) => { s with state := .requested r.id } := by
  have fresh : ∀ s ∈ t.resetBindings.subscriptions, s.state = .unsent := by simp [resetBindings]
  refine (requestUnsent_of_fresh t.requested fresh).2.trans ?_
  change List.map _ ((t.subscriptions.map _).zip t.resetBindings.takeUnsent.1) = _
  rw [List.zip_map_left, List.map_map]
  rfl

def Confirms (transport : Nat → UInt64) (request : UInt64) (text : String) : Prop :=
  Frame.read text = .ok (.confirmation request (transport request.toNat))

theorem run_confirmations (log : List Event) (t : SubscriptionTable α) {transport : Nat → UInt64}
    {order : List UInt64} {texts : List String}
    (answers : List.Forall₂ (Confirms transport) order texts) :
    (run log t (texts.map .handle)).2 = confirmAll transport t order := by
  induction answers generalizing log t with
  | nil => rfl
  | cons read _ ih =>
    rw [List.map_cons, run, ih, apply, handle_confirmation t read]
    rfl

theorem channels_confirmAll (transport : Nat → UInt64) (t : SubscriptionTable α)
    (order : List UInt64) : (confirmAll transport t order).channels = t.channels := by
  induction order generalizing t with
  | nil => rfl
  | cons request order ih =>
    rw [confirmAll, List.foldl_cons, ← confirmAll, ih]
    rcases confirm_cases t request (transport request.toNat) with
      ⟨-, ignored⟩ | ⟨before, s, after, -, -, confirmed⟩
    · rw [ignored]
    · rw [confirmed]
      rfl

def reconnect (texts : List String) : List (Step α) :=
  .resetBindings :: .takeUnsent :: texts.map .handle

theorem run_reconnect (log : List Event) (t : SubscriptionTable α) {transport : Nat → UInt64}
    {order : List UInt64} {texts : List String}
    (answers : List.Forall₂ (Confirms transport) order texts) :
    (run log t (reconnect texts)).2 = confirmAll transport t.resetBindings.takeUnsent.2 order :=
  run_confirmations _ _ answers

theorem History.apart (history : History log t) : Apart t.subscriptions :=
  history.consistent.requests_differ

theorem subscriptions_reconnect (history : History log t) {transport : Nat → UInt64}
    {order : List UInt64}
    (every : (order.map UInt64.toNat).Perm (t.resetBindings.takeUnsent.1.map (·.id))) :
    (confirmAll transport t.resetBindings.takeUnsent.2 order).subscriptions =
      (t.subscriptions.zip t.resetBindings.takeUnsent.1).map
        fun (s, r) => { s with state := .confirmed (transport r.id) } := by
  have apart : Apart t.resetBindings.takeUnsent.2.subscriptions :=
    (history.run [.resetBindings, .takeUnsent]).apart
  rw [subscriptions_confirmAll transport apart, subscriptions_reset, List.map_map]
  refine List.map_congr_left fun (s, r) member => ?_
  have answered : r.id ∈ order.map UInt64.toNat :=
    every.mem_iff.mpr (List.mem_map_of_mem (List.of_mem_zip member).2)
  exact if_pos answered

/-- A registration that shares its transport id with no other one was confirmed last under it. -/
theorem confirmedLast_of_apart (history : History log t)
    (apart : (t.subscriptions.map (·.state)).Nodup) {s : Subscription α} (member : s ∈ t.subscriptions)
    {transport : UInt64} (state : s.state = .confirmed transport) :
    confirmedLast transport log = some s.id := by
  obtain ⟨holder, inside, confirmed, last⟩ := history.routed.exists_holder member state
  obtain rfl := List.inj_on_of_nodup_map apart inside member (confirmed.trans state.symm)
  exact last

/-- After a lost connection the answers to the new requests may come in any order, and all orders lead
to the same table. It has the registrations it had, with their channels and in their order, each one
confirmed under the transport id given to the request it waited for; a notification for that transport
id is dispatched to it, what it makes of the account reaches its channel, and no other channel
changes. -/
theorem reconnection_of_history (history : History log t) (transport : Nat → UInt64)
    (distinct : (t.resetBindings.takeUnsent.1.map fun r => transport r.id).Nodup)
    {order : List UInt64} {texts : List String}
    (every : (order.map UInt64.toNat).Perm (t.resetBindings.takeUnsent.1.map (·.id)))
    (answers : List.Forall₂ (Confirms transport) order texts) :
    let requests := t.resetBindings.takeUnsent.1
    let final := (run log t (reconnect texts)).2
    (∀ order' texts', (order'.map UInt64.toNat).Perm (requests.map (·.id)) →
        List.Forall₂ (Confirms transport) order' texts' → (run log t (reconnect texts')).2 = final) ∧
      requests.map (·.address) = t.subscriptions.map (·.address) ∧
      t.resetBindings.takeUnsent.2.subscriptions = ((t.subscriptions.zip requests).map
        fun (s, r) => { s with state := .requested r.id }) ∧
      final.subscriptions = ((t.subscriptions.zip requests).map
        fun (s, r) => { s with state := .confirmed (transport r.id) }) ∧
      final.channels = t.channels ∧
      ∀ s ∈ final.subscriptions, ∀ text n, Frame.read text = .ok (.notification n) →
        n.method = "accountNotification" → s.state = .confirmed n.transport →
          (final.handle text = match (n.account.toInfo s.address).bind s.decode with
            | .error e => (.error e, final)
            | .ok value => (.ok (.published s.id n.slot), final.send s.id value)) ∧
          (∀ value, (n.account.toInfo s.address).bind s.decode = .ok value →
            final.Delivered s.id value (final.handle text).2) ∧
          ∀ other ≠ s.id, (final.handle text).2.channels other = final.channels other := by
  intro requests final
  have final_eq : final = confirmAll transport t.resetBindings.takeUnsent.2 order :=
    run_reconnect log t answers
  have subscriptions : final.subscriptions = (t.subscriptions.zip requests).map
      fun (s, r) => { s with state := .confirmed (transport r.id) } :=
    final_eq ▸ subscriptions_reconnect history every
  have addresses := addresses_reset t
  refine ⟨?_, addresses, subscriptions_reset t, subscriptions, ?_, ?_⟩
  · intro order' texts' every' answers'
    have reordered : order.Perm order' :=
      (List.map_perm_map_iff fun _ _ => UInt64.toNat_inj.mp).mp (every.trans every'.symm)
    have apart : (order.map fun request => transport request.toNat).Nodup := by
      have moved := (every.map transport).nodup_iff
      rw [List.map_map, List.map_map] at moved
      exact moved.mpr distinct
    rw [final_eq, run_reconnect log t answers', confirmAll_perm _ reordered apart]
  · rw [final_eq, channels_confirmAll]
    rfl
  · intro s member text n read method state
    have lengths : requests.length = t.subscriptions.length := by
      simpa using congrArg List.length addresses
    have paired : (t.subscriptions.zip requests).map Prod.snd = requests :=
      List.map_snd_zip (Nat.le_of_eq lengths)
    have states : final.subscriptions.map (·.state) =
        (requests.map fun r => transport r.id).map .confirmed := by
      conv_rhs => rw [← paired]
      rw [subscriptions, List.map_map, List.map_map, List.map_map]
      rfl
    have apart : (final.subscriptions.map (·.state)).Nodup :=
      states ▸ distinct.map fun _ _ => SubscriptionState.confirmed.inj
    have history' := history.run (reconnect texts)
    have last := confirmedLast_of_apart history' apart member state
    obtain ⟨holder, inside, own, -, handled⟩ := handle_of_confirmedLast history' read method last
    obtain rfl := history'.ordered.eq_of_id_eq inside member own
    exact handled

/-- Both registrations of `reused` come back, and the second one is answered first. They have
different transport ids now, so the first one gets what it missed before. -/
theorem reconnection_of_reused :
    let transport : Nat → UInt64 := fun id => UInt64.ofNat (id + 897)
    let requests := reused.2.resetBindings.takeUnsent.1
    let texts := ["\x7b\"id\":4,\"result\":901\x7d", "\x7b\"id\":3,\"result\":900\x7d"]
    let final := (run reused.1 reused.2 (reconnect texts)).2
    History reused.1 reused.2 ∧ (requests.map fun r => transport r.id).Nodup ∧
      (([4, 3] : List UInt64).map UInt64.toNat).Perm (requests.map (·.id)) ∧
      List.Forall₂ (Confirms transport) [4, 3] texts ∧
      final.subscriptions.map (fun s => (s.id, s.state)) =
        [(1, .confirmed 900), (2, .confirmed 901)] ∧
      (run reused.1 reused.2 (reconnect texts.reverse)).2 = final ∧
      (final.handle noticeText).1 = .ok (.published 1 77) ∧
      final.Delivered 1 5 (final.handle noticeText).2 := by
  intro transport requests texts final
  have distinct : (requests.map fun r => transport r.id).Nodup := by decide +kernel
  have every : (([4, 3] : List UInt64).map UInt64.toNat).Perm (requests.map (·.id)) := by
    decide +kernel
  have four : Confirms transport 4 "\x7b\"id\":4,\"result\":901\x7d" := by
    unfold Confirms
    decide +kernel
  have three : Confirms transport 3 "\x7b\"id\":3,\"result\":900\x7d" := by
    unfold Confirms
    decide +kernel
  have answers : List.Forall₂ (Confirms transport) [4, 3] texts := .cons four (.cons three .nil)
  obtain ⟨anyOrder, -, -, subscriptions, -, notified⟩ :=
    reconnection_of_history history_reused transport distinct every answers
  have states : final.subscriptions.map (fun s => (s.id, s.state)) =
      [(1, .confirmed 900), (2, .confirmed 901)] := by
    rw [subscriptions]
    decide +kernel
  have decodes : ∀ s ∈ final.subscriptions, (notice.account.toInfo s.address).bind s.decode = .ok 5 := by
    rw [subscriptions]
    decide +kernel
  have first : (1, .confirmed 900) ∈ final.subscriptions.map fun s => (s.id, s.state) := by
    rw [states]
    exact List.mem_cons_self
  obtain ⟨s, member, same⟩ := List.mem_map.mp first
  obtain ⟨own, state⟩ := Prod.mk.inj same
  obtain ⟨handled, delivered, -⟩ := notified s member noticeText notice read_noticeText rfl state
  rw [own] at handled delivered
  refine ⟨history_reused, distinct, every, answers, states, ?_, ?_, delivered 5 (decodes s member)⟩
  · exact anyOrder [3, 4] texts.reverse ((List.Perm.swap 4 3 []).map UInt64.toNat |>.trans every)
      (.cons three (.cons four .nil))
  · rw [handled, decodes s member]
    rfl

end PerpDex.SubscriptionTable
