import Mathlib.Data.List.Nodup
import PerpDex.Proofs.Feed.Taking

/-! What every table keeps along its history: the order of its registrations, the account of the
requests that were taken and confirmed, and that no registration is requested twice on a connection.
Each is proved once for each kind of change, and then for all histories. -/
namespace PerpDex.SubscriptionTable

variable {α : Type} {t t' : SubscriptionTable α} {log : List Event} {event : Event}

def ids (t : SubscriptionTable α) : List Nat := t.subscriptions.map (·.id)

/-- Registrations stand in the order in which they were made, and those not requested yet behind all
others. -/
structure Ordered (t : SubscriptionTable α) : Prop where
  ids_increasing : t.ids.Pairwise (· < ·)
  id_le : ∀ id ∈ t.ids, id ≤ t.registered
  unsent_last : t.subscriptions.Pairwise fun a b => a.state = .unsent → b.state = .unsent

/-- Registrations are added with the next id, or all dropped; nothing else touches their ids. -/
theorem Change.ids (change : Change t event t') :
    t'.registered = t.registered ∧ (t'.ids = t.ids ∨ event = .disposed ∧ t'.ids = []) ∨
      t'.registered = t.registered + 1 ∧ t'.ids = t.ids ++ [t.registered + 1] := by
  cases change with
  | channels => exact .inl ⟨rfl, .inl rfl⟩
  | registered => exact .inr ⟨rfl, by simp [SubscriptionTable.ids]⟩
  | taken => exact .inl ⟨rfl, .inl (map_id_requestUnsent ..)⟩
  | confirmed request transport split => exact .inl ⟨rfl, .inl (by simp [SubscriptionTable.ids, bound, split])⟩
  | reset => exact .inl ⟨rfl, .inl (by simp [SubscriptionTable.ids, resetBindings])⟩
  | disposed => exact .inl ⟨rfl, .inr ⟨rfl, rfl⟩⟩

theorem Ordered.change (ordered : Ordered t) (change : Change t event t') : Ordered t' := by
  obtain ⟨increasing, le, last⟩ := ordered
  refine ⟨?_, ?_, ?_⟩
  · rcases change.ids with ⟨-, same | ⟨-, none⟩⟩ | ⟨-, added⟩
    · rwa [same]
    · simp [none]
    · rw [added]
      refine List.pairwise_append.mpr ⟨increasing, List.pairwise_singleton .., ?_⟩
      intro id member next isNext
      obtain rfl := List.mem_singleton.mp isNext
      exact Nat.lt_succ_of_le (le id member)
  · rcases change.ids with ⟨count, same | ⟨-, none⟩⟩ | ⟨count, added⟩
    · rwa [same, count]
    · simp [none]
    · rw [added, count]
      intro id member
      rcases List.mem_append.mp member with old | isNext
      · exact Nat.le_succ_of_le (le id old)
      · exact Nat.le_of_eq (List.mem_singleton.mp isNext)
  · cases change with
    | channels => exact last
    | registered address decode =>
      refine List.pairwise_append.mpr ⟨last, List.pairwise_singleton .., ?_⟩
      intro s _ added isNew _
      rw [List.mem_singleton.mp isNew]
    | taken =>
      have requested := state_ne_unsent_requestUnsent t.requested t.subscriptions
      rw [List.pairwise_iff_getElem]
      intro i j inside _ _ fresh
      exact absurd fresh (requested _ (List.getElem_mem inside))
    | @confirmed before after s request transport split waits =>
      have stale : s.state ≠ .unsent := by simp [waits]
      rw [split, List.pairwise_append, List.pairwise_cons] at last
      obtain ⟨inBefore, ⟨-, inAfter⟩, across⟩ := last
      refine List.pairwise_append.mpr ⟨inBefore, List.pairwise_cons.mpr ⟨nofun, inAfter⟩, ?_⟩
      intro a member b behind fresh
      rcases List.mem_cons.mp behind with rfl | later
      · exact absurd (across a member s List.mem_cons_self fresh) stale
      · exact across a member b (List.mem_cons_of_mem _ later) fresh
    | reset =>
      rw [resetBindings, List.pairwise_map, List.pairwise_iff_getElem]
      intros
      rfl
    | disposed => exact .nil

theorem History.ordered (history : History log t) : Ordered t := by
  induction history with
  | new => exact ⟨.nil, nofun, .nil⟩
  | step _ step ih => exact ih.change (.apply _ step)

theorem pending_sublist (log : List Event) : (pending log).Sublist ((taken log).map (·.id)) := by
  induction log with
  | nil => exact .slnil
  | cons event log ih =>
    cases event with
    | requested subscriptions requests =>
      simp only [pending, taken, List.map_append]
      exact ih.append (.refl _)
    | confirmed => exact List.filter_sublist.trans ih
    | reset | disposed => exact List.nil_sublist _
    | other => exact ih

/-- The request ids of a run count from one, and the registrations that wait are those whose
requests were neither confirmed nor forgotten. -/
structure Accounted (log : List Event) (t : SubscriptionTable α) : Prop where
  taken_ids : (taken log).map (·.id) = List.range' 1 t.requested
  awaited : t.subscriptions.filterMap Subscription.awaited? = pending log
  settled : ∀ request subscription transport, .confirmed request subscription transport ∈ log →
    request.toNat ≤ t.requested ∧ request.toNat ∉ pending log

namespace Accounted

theorem pending_nodup (accounted : Accounted log t) : (pending log).Nodup := by
  have all := pending_sublist log
  rw [accounted.taken_ids] at all
  exact all.nodup List.nodup_range'

theorem pending_le (accounted : Accounted log t) : ∀ request ∈ pending log, request ≤ t.requested := by
  intro request member
  have mem := (pending_sublist log).subset member
  rw [accounted.taken_ids, List.mem_range'_1] at mem
  omega

theorem taken (accounted : Accounted log t) (ordered : Ordered t) (subscriptions : List Nat) :
    Accounted (.requested subscriptions t.takeUnsent.1 :: log) t.takeUnsent.2 := by
  obtain ⟨ids, final⟩ := ids_requestUnsent t.requested t.subscriptions
  refine ⟨?_, ?_, ?_⟩
  · have next : t.requested + 1 = 1 + t.requested := Nat.add_comm ..
    simp only [SubscriptionTable.taken, List.map_append, accounted.taken_ids, takeUnsent]
    rw [ids, final, next, ← List.range'_append_1]
  · simp only [pending, takeUnsent, ← accounted.awaited]
    exact awaited_requestUnsent t.requested ordered.unsent_last
  · intro request subscription transport member
    obtain ⟨le, gone⟩ := accounted.settled request subscription transport (by simpa using member)
    simp only [pending, takeUnsent, final, ids, List.mem_append, List.mem_range'_1]
    refine ⟨by omega, ?_⟩
    rintro (old | new)
    · exact gone old
    · omega

theorem confirmed (accounted : Accounted log t) {before after : List (Subscription α)}
    {s : Subscription α} {request : UInt64} (transport : UInt64)
    (split : t.subscriptions = before ++ s :: after) (waits : s.state = .requested request.toNat) :
    Accounted (.confirmed request s.id transport :: log) (t.bound before s after transport) := by
  have own : s.awaited? = some request.toNat := by rw [Subscription.awaited?, waits]
  have others : pending log = before.filterMap Subscription.awaited? ++
      request.toNat :: after.filterMap Subscription.awaited? := by
    rw [← accounted.awaited, split, List.filterMap_append, List.filterMap_cons_some own]
  have distinct := accounted.pending_nodup
  rw [others, List.nodup_middle, List.nodup_cons, List.mem_append] at distinct
  refine ⟨accounted.taken_ids, ?_, ?_⟩
  · have kept : ∀ list : List Nat, request.toNat ∉ list → list.filter (· ≠ request.toNat) = list := by
      intro list absent
      refine List.filter_eq_self.mpr fun id member => decide_eq_true ?_
      exact ne_of_mem_of_not_mem member absent
    simp only [pending, others, bound, List.filter_append, List.filterMap_append]
    rw [List.filter_cons_of_neg (by simp), kept _ fun member => distinct.1 (.inl member),
      kept _ fun member => distinct.1 (.inr member), List.filterMap_cons_none (by rfl)]
  · intro other subscription transport' member
    rcases List.mem_cons.mp member with same | earlier
    · cases same
      have waiting : request.toNat ∈ pending log := by simp [others]
      exact ⟨accounted.pending_le _ waiting, by simp [pending]⟩
    · obtain ⟨le, gone⟩ := accounted.settled other subscription transport' earlier
      exact ⟨le, fun still => gone (List.mem_of_mem_filter still)⟩

/-- The bindings are dropped, and with them the requests that were waited for. -/
theorem unbound (accounted : Accounted log t) (event : Event) (unbinds : event.unbinds)
    (count : t'.requested = t.requested)
    (none : ∀ s ∈ t'.subscriptions, s.state = .unsent) : Accounted (event :: log) t' := by
  have nobody : t'.subscriptions.filterMap Subscription.awaited? = [] := by
    rw [List.filterMap_eq_nil_iff]
    intro s member
    rw [Subscription.awaited?, none s member]
  cases event with
  | reset | disposed =>
    refine ⟨count ▸ accounted.taken_ids, nobody, ?_⟩
    intro request subscription transport member
    have earlier := accounted.settled request subscription transport (by simpa using member)
    exact ⟨count ▸ earlier.1, List.not_mem_nil⟩
  | requested | confirmed | other => exact absurd unbinds id

theorem change (accounted : Accounted log t) (ordered : Ordered t) (change : Change t event t') :
    Accounted (event :: log) t' := by
  have settled : ∀ request subscription transport,
      .confirmed request subscription transport ∈ .other :: log →
        request.toNat ≤ t.requested ∧ request.toNat ∉ pending log := by
    intro request subscription transport member
    exact accounted.settled request subscription transport (by simpa using member)
  cases change with
  | channels => exact ⟨accounted.taken_ids, accounted.awaited, settled⟩
  | registered =>
    refine ⟨accounted.taken_ids, ?_, settled⟩
    simp only [List.filterMap_append, accounted.awaited, pending]
    exact List.append_nil _
  | taken => exact accounted.taken ordered _
  | confirmed request transport split waits => exact accounted.confirmed transport split waits
  | reset => exact accounted.unbound .reset trivial rfl (by simp [resetBindings])
  | disposed => exact accounted.unbound .disposed trivial rfl nofun

end Accounted

theorem History.accounted (history : History log t) : Accounted log t := by
  induction history with
  | new => exact ⟨rfl, rfl, nofun⟩
  | step earlier step ih => exact ih.change earlier.ordered (.apply _ step)

/-- No registration has two requests since the last reset: those that have one are not offered
again, and new ones have new ids. -/
structure RequestedOnce (log : List Event) (t : SubscriptionTable α) : Prop where
  nodup : (requestedSinceReset log).Nodup
  id_le : ∀ id ∈ requestedSinceReset log, id ≤ t.registered
  not_unsent : ∀ s ∈ t.subscriptions, s.id ∈ requestedSinceReset log → s.state ≠ .unsent

theorem RequestedOnce.change (once : RequestedOnce log t) (ordered : Ordered t)
    (change : Change t event t') : RequestedOnce (event :: log) t' := by
  obtain ⟨nodup, le, requested⟩ := once
  cases change with
  | channels => exact ⟨nodup, le, requested⟩
  | registered address decode =>
    refine ⟨nodup, fun id member => Nat.le_succ_of_le (le id member), ?_⟩
    intro s member again
    rcases List.mem_append.mp member with old | isNew
    · exact requested s old again
    · obtain rfl := List.mem_singleton.mp isNew
      exact absurd (le _ again) (Nat.not_succ_le_self _)
  | taken =>
    have fresh : (t.unsent.map (·.id)).Sublist t.ids := List.filter_sublist.map _
    refine ⟨?_, ?_, ?_⟩
    · refine List.nodup_append.mpr ⟨nodup, ordered.ids_increasing.nodup.sublist fresh, ?_⟩
      rintro id again id' isFresh rfl
      obtain ⟨s, unsent, rfl⟩ := List.mem_map.mp isFresh
      obtain ⟨member, state⟩ := List.mem_filter.mp unsent
      exact requested s member again (of_decide_eq_true state)
    · intro id member
      rcases List.mem_append.mp member with old | isFresh
      · exact le id old
      · exact ordered.id_le id (fresh.subset isFresh)
    · exact fun s member _ => state_ne_unsent_requestUnsent _ _ s member
  | @confirmed before after s request transport split waits =>
    refine ⟨nodup, le, ?_⟩
    intro other member again
    rw [bound, List.mem_append, List.mem_cons] at member
    rcases member with earlier | rfl | later
    · exact requested other (by simp [split, earlier]) again
    · simp
    · exact requested other (by simp [split, later]) again
  | reset =>
    have none : ∀ id, id ∉ requestedSinceReset (.reset :: log) := fun _ => List.not_mem_nil
    exact ⟨.nil, fun id again => absurd again (none id), fun s _ again => absurd again (none s.id)⟩
  | disposed => exact ⟨nodup, le, fun s member => absurd member List.not_mem_nil⟩

theorem History.requestedOnce (history : History log t) : RequestedOnce log t := by
  induction history with
  | new => exact ⟨.nil, nofun, nofun⟩
  | step earlier step ih => exact ih.change earlier.ordered (.apply _ step)

end PerpDex.SubscriptionTable
