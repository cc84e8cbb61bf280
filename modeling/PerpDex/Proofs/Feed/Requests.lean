import PerpDex.Proofs.Feed.RequestTexts
import PerpDex.Proofs.Feed.Bookkeeping

/-! The requests of a whole run. Their ids grow, over resets and disposals, so an answer to a request
from before a reset meets no registration that waits for it, and neither does a second answer. What is
sent are texts, and they give the requests back as long as the ids are of 64 bits. -/
namespace PerpDex.SubscriptionTable

variable {α : Type} {t : SubscriptionTable α} {log : List Event}

theorem taken_append (later earlier : List Event) :
    taken (later ++ earlier) = taken earlier ++ taken later := by
  induction later with
  | nil => simp [taken]
  | cons event later ih => cases event <;> simp [taken, ih]

theorem taken_cons_of_unbinds {event : Event} (unbinds : event.unbinds) (earlier : List Event) :
    taken (event :: earlier) = taken earlier := by
  cases event with
  | reset | disposed => rfl
  | requested | confirmed | other => exact absurd unbinds id

/-- What is waited for was requested since the bindings were last dropped. -/
theorem mem_taken_of_mem_pending {later earlier : List Event} {event : Event}
    (unbinds : event.unbinds) {request : Nat} (waited : request ∈ pending (later ++ event :: earlier)) :
    request ∈ (taken later).map (·.id) := by
  induction later with
  | nil =>
    cases event with
    | reset | disposed => exact absurd waited List.not_mem_nil
    | requested | confirmed | other => exact absurd unbinds id
  | cons last later ih =>
    cases last with
    | requested subscriptions requests =>
      simp only [List.cons_append, pending, taken, List.map_append, List.mem_append] at waited ⊢
      exact waited.imp_left ih
    | confirmed => exact ih (List.mem_of_mem_filter waited)
    | reset | disposed => exact absurd waited List.not_mem_nil
    | other => exact ih waited

theorem not_mem_pending_of_forgotten (accounted : Accounted log t) {request : Nat}
    (gone : forgotten request log) : request ∉ pending log := by
  obtain ⟨later, event, earlier, rfl, unbinds, before⟩ := gone
  intro waited
  have since := mem_taken_of_mem_pending unbinds waited
  have distinct : ((taken (later ++ event :: earlier)).map (·.id)).Nodup :=
    accounted.taken_ids ▸ List.nodup_range'
  rw [taken_append, taken_cons_of_unbinds unbinds, List.map_append, List.nodup_append] at distinct
  exact distinct.2.2 request before request since rfl

/-- A request is waited for unless it was forgotten or confirmed. -/
theorem mem_pending {request : UInt64} (requested : request.toNat ∈ (taken log).map (·.id))
    (kept : ¬forgotten request.toNat log)
    (open' : ∀ subscription transport, .confirmed request subscription transport ∉ log) :
    request.toNat ∈ pending log := by
  induction log with
  | nil => exact requested
  | cons event log ih =>
    have kept' : ¬forgotten request.toNat log := by
      rintro ⟨later, unbinding, earlier, rfl, gone⟩
      exact kept ⟨event :: later, unbinding, earlier, rfl, gone⟩
    have later := fun requested => ih requested kept' fun subscription transport member =>
      open' subscription transport (List.mem_cons_of_mem _ member)
    cases event with
    | requested subscriptions requests =>
      simp only [taken, pending, List.map_append, List.mem_append] at requested ⊢
      exact requested.imp_left later
    | confirmed other subscription transport =>
      have different : request ≠ other := by
        rintro rfl
        exact open' subscription transport List.mem_cons_self
      refine List.mem_filter.mpr ⟨later requested, decide_eq_true ?_⟩
      exact fun same => different (UInt64.toNat_inj.mp same)
    | reset => exact absurd ⟨[], .reset, log, rfl, trivial, requested⟩ kept
    | disposed => exact absurd ⟨[], .disposed, log, rfl, trivial, requested⟩ kept
    | other => exact later requested

theorem mem_pending_iff (accounted : Accounted log t) {request : Nat} :
    request ∈ pending log ↔ ∃ s ∈ t.subscriptions, s.state = .requested request := by
  rw [← accounted.awaited, List.mem_filterMap]
  refine exists_congr fun s => and_congr_right fun _ => ?_
  rw [Subscription.awaited?]
  split <;> simp_all

theorem handle_confirmation (t : SubscriptionTable α) {text : String} {request transport : UInt64}
    (read : Frame.read text = .ok (.confirmation request transport)) :
    t.handle text = (.ok (t.confirm request transport).1, (t.confirm request transport).2) := by
  rw [handle, read]
  rfl

theorem forall₂_asks (commitment : Commitment) {requests : List Request}
    (fits : ∀ r ∈ requests, r.id < 2 ^ 64) :
    List.Forall₂ (Request.Asks commitment) requests (requests.map (·.text commitment)) :=
  List.forall₂_map_right_iff.mpr (List.forall₂_same.mpr fun r member => Request.asks_text (fits r member))

theorem pairwise_id_taken (accounted : Accounted log t) :
    ((taken log).map (·.id)).Pairwise (· < ·) :=
  accounted.taken_ids ▸ List.pairwise_lt_range'

/-- No request has an id above the number of requests. -/
theorem id_le_of_mem_taken (accounted : Accounted log t) {r : Request} (member : r ∈ taken log) :
    r.id ≤ t.requested := by
  have inside : r.id ∈ (taken log).map (·.id) := List.mem_map_of_mem member
  rw [accounted.taken_ids, List.mem_range'_1] at inside
  omega

/-- There is a text for each registration that is not requested yet, and it asks for its account. -/
theorem forall₂_takeTexts (history : History log t) (fits : t.takeTexts.2.requested < 2 ^ 64) :
    List.Forall₂
      (fun s text => ∃ id, Request.Asks t.commitment ⟨id, s.address⟩ text ∧
        { s with state := .requested id } ∈ t.takeTexts.2.subscriptions)
      t.unsent t.takeTexts.1 := by
  obtain ⟨lengths, each⟩ := List.forall₂_iff_zip.mp (forall₂_requestUnsent t.requested t.subscriptions)
  refine List.forall₂_map_right_iff.mpr (List.forall₂_iff_zip.mpr ⟨lengths, fun {s r} member => ?_⟩)
  obtain ⟨address, waits⟩ := each member
  have logged : r ∈ taken (t.event .takeUnsent :: log) :=
    List.mem_append_right _ (List.of_mem_zip member).2
  have le := id_le_of_mem_taken (history.step .takeUnsent).accounted logged
  refine ⟨r.id, ?_, waits⟩
  rw [← address]
  exact Request.asks_text (le.trans_lt fits)

theorem Change.commitment {t' : SubscriptionTable α} {event : Event} (change : Change t event t') :
    t'.commitment = t.commitment := by
  cases change <;> rfl

theorem texts_cons {step : Step α} (other : step ≠ .takeUnsent) (steps : List (Step α)) :
    t.texts (step :: steps) = (t.apply step).texts steps := by
  cases step with
  | takeUnsent => exact absurd rfl other
  | _ => rfl

theorem taken_event {step : Step α} (other : step ≠ .takeUnsent) (log : List Event) :
    taken (t.event step :: log) = taken log := by
  cases step with
  | takeUnsent => exact absurd rfl other
  | handle text =>
    simp only [event]
    split
    · rfl
    · rfl
  | _ => rfl

/-- Over any steps the texts that are sent ask for what the requests taken ask for. -/
theorem forall₂_texts (log : List Event) (t : SubscriptionTable α) (steps : List (Step α))
    (fits : ∀ r ∈ taken (run log t steps).1, r.id < 2 ^ 64) :
    ∃ requests, taken (run log t steps).1 = taken log ++ requests ∧
      List.Forall₂ (Request.Asks t.commitment) requests (t.texts steps) := by
  induction steps generalizing log t with
  | nil => exact ⟨[], (List.append_nil _).symm, .nil⟩
  | cons step steps ih =>
    obtain ⟨later, logged, asked⟩ := ih (t.event step :: log) (t.apply step) fits
    rw [(Change.apply t step).commitment] at asked
    by_cases takes : step = .takeUnsent
    · subst takes
      have logged : taken (run log t (.takeUnsent :: steps)).1 =
          taken log ++ (t.takeUnsent.1 ++ later) :=
        logged.trans (List.append_assoc ..)
      refine ⟨t.takeUnsent.1 ++ later, logged, List.rel_append (forall₂_asks _ ?_) asked⟩
      intro r member
      refine fits r ?_
      rw [logged]
      exact List.mem_append_right _ (List.mem_append_left _ member)
    · rw [texts_cons takes]
      exact ⟨later, logged.trans (by rw [taken_event takes]), asked⟩

/-- The ids of requests grow over a whole run. Whenever requests are taken, there is one for each
registration not requested yet, in their order and for their addresses, and all of them are requested
then; no registration is requested twice without a reset in between. As long as the ids are of 64
bits, the texts that are sent give back the ids and the addresses, for each call and over any further
steps. An answer to a request that was forgotten, was answered before or was never made is passed over,
and any other one confirms the registration that waits for it. -/
theorem requests_of_history (history : History log t) :
    ((taken log).map (·.id)).Pairwise (· < ·) ∧
      List.Forall₂
        (fun s r => r.address = s.address ∧
          { s with state := .requested r.id } ∈ t.takeUnsent.2.subscriptions)
        t.unsent t.takeUnsent.1 ∧
      (∀ s ∈ t.takeUnsent.2.subscriptions, s.state ≠ .unsent) ∧
      (requestedSinceReset log).Nodup ∧
      (t.takeTexts.2.requested < 2 ^ 64 →
        List.Forall₂
          (fun s text => ∃ id, Request.Asks t.commitment ⟨id, s.address⟩ text ∧
            { s with state := .requested id } ∈ t.takeTexts.2.subscriptions)
          t.unsent t.takeTexts.1) ∧
      (∀ steps, (run log t steps).2.requested < 2 ^ 64 →
        ∃ requests, taken (run log t steps).1 = taken log ++ requests ∧
          ((taken log ++ requests).map (·.id)).Pairwise (· < ·) ∧
          List.Forall₂ (Request.Asks t.commitment) requests (t.texts steps)) ∧
      ∀ text request transport, Frame.read text = .ok (.confirmation request transport) →
        let passedOver := forgotten request.toNat log ∨
          (∃ subscription transport, .confirmed request subscription transport ∈ log) ∨
          request.toNat ∉ (taken log).map (·.id)
        (passedOver → t.handle text = (.ok .ignored, t)) ∧
          (¬passedOver → ∃ s ∈ t.subscriptions, s.state = .requested request.toNat ∧
            (t.handle text).1 = .ok (.confirmed s.id transport)) := by
  have accounted := history.accounted
  refine ⟨pairwise_id_taken accounted, forall₂_requestUnsent ..,
    state_ne_unsent_requestUnsent _ _, history.requestedOnce.nodup, forall₂_takeTexts history,
    fun steps fits => ?_, ?_⟩
  · have later := (history.run steps).accounted
    obtain ⟨requests, logged, asked⟩ := forall₂_texts log t steps fun r member =>
      (id_le_of_mem_taken later member).trans_lt fits
    exact ⟨requests, logged, logged ▸ pairwise_id_taken later, asked⟩
  intro text request transport read passedOver
  rw [handle_confirmation t read]
  constructor
  · intro passed
    have nobody : request.toNat ∉ pending log := by
      rcases passed with gone | ⟨subscription, transport', answered⟩ | never
      · exact not_mem_pending_of_forgotten accounted gone
      · exact (accounted.settled _ _ _ answered).2
      · exact fun waited => never ((pending_sublist log).subset waited)
    rcases confirm_cases t request transport with ⟨-, ignored⟩ | ⟨before, s, after, split, waits, -⟩
    · rw [ignored]
    · have member : s ∈ t.subscriptions := by simp [split]
      exact absurd ((mem_pending_iff accounted).mpr ⟨s, member, waits⟩) nobody
  · intro due
    simp only [passedOver, not_or, not_exists, Classical.not_not] at due
    obtain ⟨kept, unanswered, requested⟩ := due
    have waited := mem_pending requested kept unanswered
    rcases confirm_cases t request transport with ⟨nobody, -⟩ | ⟨before, s, after, split, waits, confirmed⟩
    · obtain ⟨s, member, waits⟩ := (mem_pending_iff accounted).mp waited
      exact absurd waits (nobody s member)
    · exact ⟨s, by simp [split], waits, by rw [confirmed]⟩

def lamports (info : AccountInfo) : Except Error UInt64 := .ok info.lamports

def reconnected : List Event × SubscriptionTable UInt64 :=
  run [] (new .processed) [.register .zero lamports, .takeUnsent, .resetBindings, .takeUnsent]

theorem log_reconnected : reconnected.1 =
    [.requested [1] [⟨2, .zero⟩], .reset, .requested [1] [⟨1, .zero⟩], .other] := by
  decide +kernel

/-- Both requests ask for the same account, and the answer to the lost one comes late. -/
theorem requests_of_reconnected :
    let steps : List (Step UInt64) :=
      [.register .zero lamports, .takeUnsent, .resetBindings, .takeUnsent]
    let asking (id : String) := "\x7b\"id\":" ++ id ++ ",\"jsonrpc\":\"2.0\",\"method\":" ++
      "\"accountSubscribe\",\"params\":[\"11111111111111111111111111111111\"," ++
      "\x7b\"commitment\":\"processed\",\"encoding\":\"base64\"\x7d]\x7d"
    let late := "\x7b\"id\":1,\"result\":900\x7d"
    History reconnected.1 reconnected.2 ∧ Frame.read late = .ok (.confirmation 1 900) ∧
      forgotten 1 reconnected.1 ∧ reconnected.2.handle late = (.ok .ignored, reconnected.2) ∧
      (run [] (new .processed) steps).2.requested < 2 ^ 64 ∧
      List.Forall₂ (Request.Asks .processed) [⟨1, .zero⟩, ⟨2, .zero⟩]
        ((new .processed).texts steps) ∧
      (new .processed).texts steps = [asking "1", asking "2"] := by
  intro steps asking late
  have history : History reconnected.1 reconnected.2 := (History.new .processed).run _
  have read : Frame.read late = .ok (.confirmation 1 900) := by decide +kernel
  have gone : forgotten 1 reconnected.1 := by
    rw [log_reconnected]
    exact ⟨[.requested [1] [⟨2, .zero⟩]], .reset, _, rfl, trivial, List.mem_cons_self⟩
  obtain ⟨-, -, -, -, -, -, answers⟩ := requests_of_history history
  have fits : (run [] (new .processed) steps).2.requested < 2 ^ 64 := by decide +kernel
  have empty : History [] (new .processed : SubscriptionTable UInt64) := .new .processed
  obtain ⟨-, -, -, -, -, texts, -⟩ := requests_of_history empty
  obtain ⟨requests, logged, -, asked⟩ := texts steps fits
  have both : requests = [⟨1, .zero⟩, ⟨2, .zero⟩] := by
    change taken reconnected.1 = requests at logged
    rw [← logged, log_reconnected]
    rfl
  exact ⟨history, read, gone, (answers late 1 900 read).1 (.inl gone), fits, both ▸ asked,
    by decide +kernel⟩

end PerpDex.SubscriptionTable
