import Mathlib.Data.List.Forall2
import PerpDex.Proofs.Feed.Changes

/-! Taking requests. There is one request for each registration that was not requested yet, in their
order, and the ids count on from the last one; the registrations wait for the answers then. -/
namespace PerpDex.SubscriptionTable

variable {α : Type} {t : SubscriptionTable α}

theorem ids_requestUnsent (last : Nat) (subscriptions : List (Subscription α)) :
    (requestUnsent last subscriptions).1.map (·.id) =
        List.range' (last + 1) (requestUnsent last subscriptions).1.length ∧
      (requestUnsent last subscriptions).2.2 =
        last + (requestUnsent last subscriptions).1.length := by
  induction subscriptions generalizing last with
  | nil => exact ⟨rfl, rfl⟩
  | cons s rest ih =>
    by_cases fresh : s.state = .unsent
    · obtain ⟨ids, final⟩ := ih (last + 1)
      simp only [requestUnsent, fresh, if_true, List.map_cons, List.length_cons, List.range'_succ]
      exact ⟨congrArg _ ids, by rw [final]; omega⟩
    · simpa only [requestUnsent, fresh, if_false] using ih last

/-- Each registration that was not requested yet has one request, for its address, and waits for the
answer to it. -/
theorem forall₂_requestUnsent (last : Nat) (subscriptions : List (Subscription α)) :
    List.Forall₂
      (fun s r => r.address = s.address ∧
        { s with state := .requested r.id } ∈ (requestUnsent last subscriptions).2.1)
      (subscriptions.filter (·.state = .unsent)) (requestUnsent last subscriptions).1 := by
  induction subscriptions generalizing last with
  | nil => exact .nil
  | cons s rest ih =>
    by_cases fresh : s.state = .unsent
    · simp only [requestUnsent, fresh, if_true, List.filter_cons, decide_true]
      refine .cons ⟨rfl, List.mem_cons_self⟩ ((ih (last + 1)).imp ?_)
      rintro s' r ⟨address, waits⟩
      exact ⟨address, List.mem_cons_of_mem _ waits⟩
    · simp only [requestUnsent, fresh, if_false, List.filter_cons, decide_false]
      refine (ih last).imp ?_
      rintro s' r ⟨address, waits⟩
      exact ⟨address, List.mem_cons_of_mem _ waits⟩

theorem state_ne_unsent_requestUnsent (last : Nat) (subscriptions : List (Subscription α)) :
    ∀ s ∈ (requestUnsent last subscriptions).2.1, s.state ≠ .unsent := by
  induction subscriptions generalizing last with
  | nil => exact fun s member => nomatch member
  | cons s rest ih =>
    by_cases fresh : s.state = .unsent
    · simp only [requestUnsent, fresh, if_true, List.forall_mem_cons]
      exact ⟨nofun, ih (last + 1)⟩
    · simp only [requestUnsent, fresh, if_false, List.forall_mem_cons]
      exact ⟨fresh, ih last⟩

theorem map_id_requestUnsent (last : Nat) (subscriptions : List (Subscription α)) :
    (requestUnsent last subscriptions).2.1.map (·.id) = subscriptions.map (·.id) := by
  induction subscriptions generalizing last with
  | nil => rfl
  | cons s rest ih => by_cases fresh : s.state = .unsent <;> simp [requestUnsent, fresh, ih]

/-- Taking requests leaves confirmed registrations at their places, and makes no others. -/
theorem confirmed_requestUnsent (last : Nat) (subscriptions : List (Subscription α))
    (position : Nat) (s : Subscription α) (transport : UInt64) (bound : s.state = .confirmed transport) :
    (requestUnsent last subscriptions).2.1[position]? = some s ↔ subscriptions[position]? = some s := by
  induction subscriptions generalizing last position with
  | nil => rfl
  | cons first rest ih =>
    by_cases fresh : first.state = .unsent
    · simp only [requestUnsent, fresh, if_true]
      cases position with
      | zero =>
        simp only [List.getElem?_cons_zero, Option.some.injEq]
        constructor
        · rintro rfl
          cases bound
        · rintro rfl
          rw [fresh] at bound
          cases bound
      | succ position => exact ih (last + 1) position
    · simp only [requestUnsent, fresh, if_false]
      cases position with
      | zero => rfl
      | succ position => exact ih last position

/-- Where all registrations behind one that is not requested yet are not requested either, the
answers to the requests taken are waited for behind all others. -/
theorem awaited_requestUnsent (last : Nat) {subscriptions : List (Subscription α)}
    (ordered : subscriptions.Pairwise fun a b => a.state = .unsent → b.state = .unsent) :
    (requestUnsent last subscriptions).2.1.filterMap Subscription.awaited? =
      subscriptions.filterMap Subscription.awaited? ++
        (requestUnsent last subscriptions).1.map (·.id) := by
  induction ordered generalizing last with
  | nil => rfl
  | @cons s rest behind _ ih =>
    by_cases fresh : s.state = .unsent
    · have none : rest.filterMap Subscription.awaited? = [] := by
        rw [List.filterMap_eq_nil_iff]
        intro other member
        simp [Subscription.awaited?, behind other member fresh]
      have later := ih (last + 1)
      rw [none] at later
      simp only [requestUnsent, fresh, if_true, List.map_cons]
      simp [Subscription.awaited?, fresh, none, later]
    · simp only [requestUnsent, fresh, if_false]
      rw [List.filterMap_cons, List.filterMap_cons, ih last]
      cases s.awaited? <;> rfl

end PerpDex.SubscriptionTable
