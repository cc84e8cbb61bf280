import PerpDex.Proofs.Queue.Conservation
import PerpDex.Queue.Registry

/-! Queues in one registry do not influence each other. A call reads and writes the tracker of its
own queue alone, so what the calls for one queue answer does not depend on the calls in between, and
from its first snapshot on a queue is followed as by a tracker of its own. -/
namespace PerpDex

namespace TrackerRegistry

inductive Call where
  | observe (queue : Address) (snapshot : Snapshot)
  | remove (queue : Address)

/-- What a call gives back. The events are of the kind of the snapshot. -/
inductive Answer where
  | unseen {ε : Type} (result : Except Error (Unseen ε))
  | removed (tracker : Option Tracker)

def Call.queue : Call → Address
  | observe queue _ => queue
  | remove queue => queue

def call (r : TrackerRegistry) : Call → Answer × TrackerRegistry
  | .observe queue snapshot =>
    (.unseen (r.observe queue snapshot.queue).1, (r.observe queue snapshot.queue).2)
  | .remove queue => (.removed (r.remove queue).1, (r.remove queue).2)

def after (r : TrackerRegistry) : List Call → TrackerRegistry
  | [] => r
  | c :: rest => after (r.call c).2 rest

def answers (r : TrackerRegistry) : List Call → List (Address × Answer)
  | [] => []
  | c :: rest => (c.queue, (r.call c).1) :: answers (r.call c).2 rest

end TrackerRegistry

def Tracker.answers (t : Tracker) : List Snapshot → List TrackerRegistry.Answer
  | [] => []
  | s :: rest => .unseen (t.unseen s.queue).1 :: answers (t.unseen s.queue).2 rest

namespace TrackerRegistry

variable {r s : TrackerRegistry} {queue : Address}

/-- A call as seen by the tracker of its queue, if there is one. -/
def Call.act : Call → Option Tracker → Answer × Option Tracker
  | observe _ snapshot, none =>
    (.unseen (.ok (.complete []) : Except Error (Unseen snapshot.ε)), some (.new snapshot.queue))
  | observe _ snapshot, some t =>
    (.unseen (t.unseen snapshot.queue).1, some (t.unseen snapshot.queue).2)
  | remove _, t => (.removed t, none)

/-- The tracker of the called queue is all that a call reads. -/
theorem call_answer (r : TrackerRegistry) (c : Call) :
    (r.call c).1 = (c.act (r.get? c.queue)).1 := by
  cases c with
  | observe queue snapshot =>
    simp only [call, observe, Call.queue]
    cases r.get? queue <;> rfl
  | remove queue => rfl

/-- The tracker of the called queue is all that a call writes. -/
theorem get?_call (r : TrackerRegistry) (c : Call) (other : Address) :
    (r.call c).2.get? other =
      if other = c.queue then (c.act (r.get? c.queue)).2 else r.get? other := by
  cases c with
  | observe queue snapshot =>
    simp only [call, observe, Call.queue]
    cases r.get? queue <;> exact get?_insert ..
  | remove queue => exact get?_erase ..

/-- Two registries with the same tracker for a queue cannot be told apart by calls for it, even if
one of them gets other calls in between. -/
theorem answers_filter (queue : Address) (same : r.get? queue = s.get? queue)
    (calls : List Call) :
    (r.answers calls).filter (·.1 = queue) = s.answers (calls.filter (·.queue = queue)) ∧
      (r.after calls).get? queue = (s.after (calls.filter (·.queue = queue))).get? queue := by
  induction calls generalizing r s with
  | nil => exact ⟨rfl, same⟩
  | cons c rest ih =>
    by_cases own : c.queue = queue
    · have next : (r.call c).2.get? queue = (s.call c).2.get? queue := by
        simp [get?_call, own, same]
      have answer : (r.call c).1 = (s.call c).1 := by
        rw [call_answer, call_answer, own, same]
      simpa [answers, after, own, answer] using ih next
    · have next : (r.call c).2.get? queue = s.get? queue := by
        rw [get?_call, if_neg (Ne.symm own), same]
      simpa [answers, after, own] using ih next

/-- Snapshots of a queue that is tracked go to its tracker. -/
theorem answers_observe {t : Tracker} (tracked : r.get? queue = some t)
    (snapshots : List Snapshot) :
    r.answers (snapshots.map (.observe queue)) = (t.answers snapshots).map (queue, ·) ∧
      (r.after (snapshots.map (.observe queue))).get? queue = some (t.after snapshots) := by
  induction snapshots generalizing r t with
  | nil => exact ⟨rfl, tracked⟩
  | cons snapshot rest ih =>
    have next : (r.call (.observe queue snapshot)).2.get? queue =
        some (t.unseen snapshot.queue).2 := by
      simp [get?_call, Call.queue, tracked, Call.act]
    have answer : (r.call (.observe queue snapshot)).1 = .unseen (t.unseen snapshot.queue).1 := by
      simp [call_answer, Call.queue, tracked, Call.act]
    obtain ⟨given, kept⟩ := ih next
    exact ⟨by simp [answers, Tracker.answers, Call.queue, answer, given], kept⟩

/-- The first snapshot of a queue starts a tracker. -/
theorem answers_observe_first (untracked : r.get? queue = none) (first : Snapshot)
    (rest : List Snapshot) :
    r.answers ((first :: rest).map (.observe queue)) =
        (queue, .unseen (.ok (.complete []) : Except Error (Unseen first.ε))) ::
          ((Tracker.new first.queue).answers rest).map (queue, ·) ∧
      (r.after ((first :: rest).map (.observe queue))).get? queue =
        some ((Tracker.new first.queue).after rest) := by
  have next : (r.call (.observe queue first)).2.get? queue = some (.new first.queue) := by
    simp [get?_call, Call.queue, untracked, Call.act]
  have answer : (r.call (.observe queue first)).1 =
      .unseen (.ok (.complete []) : Except Error (Unseen first.ε)) := by
    simp [call_answer, Call.queue, untracked, Call.act]
  obtain ⟨given, kept⟩ := answers_observe next rest
  exact ⟨by simp [answers, Call.queue, answer, given], kept⟩

/-- Putting a tracker back where it was taken from changes nothing. -/
theorem insert_perm {t : Tracker} (tracked : r.get? queue = some t) :
    (r.insert queue t).trackers.Perm r.trackers := by
  obtain ⟨before, behind, split, -⟩ := List.lookup_eq_some_iff.mp tracked
  have once := r.nodup
  rw [split, List.map_append, List.map_cons, List.nodup_middle, List.nodup_cons,
    List.mem_append, not_or] at once
  have kept (part : List (Address × Tracker)) (absent : queue ∉ part.map Prod.fst) :
      part.filter (·.1 != queue) = part := by
    refine List.filter_eq_self.mpr fun entry member => ?_
    have other : entry.1 ≠ queue := fun same => absent (same ▸ List.mem_map_of_mem member)
    simpa using other
  have rest : (r.erase queue).trackers = before ++ behind := by
    simp [erase, split, kept before once.1.1, kept behind once.1.2]
  rw [trackers_insert, rest, split]
  exact List.perm_middle.symm

/-- The registry behind a refused observation is the same but for the order of its trackers. -/
theorem observe_eq_error {snapshot : Snapshot} {e : Error}
    (refused : (r.observe queue snapshot.queue).1 = .error e) :
    (r.observe queue snapshot.queue).2.trackers.Perm r.trackers ∧
      ∃ t, r.get? queue = some t ∧ snapshot.queue.sequence < t.last ∧
        e = .sequenceRegression t.last snapshot.queue.sequence := by
  unfold observe at refused ⊢
  cases tracked : r.get? queue with
  | none =>
    rw [tracked] at refused
    cases refused
  | some t =>
    rw [tracked] at refused
    have accounts := t.accounts snapshot.decoded
    by_cases older : snapshot.queue.sequence < t.last
    · have answer := accounts.refused_iff.mpr older
      refine ⟨?_, t, rfl, older, Except.error.inj (refused.symm.trans answer)⟩
      dsimp only
      rw [accounts.unmoved older]
      exact insert_perm tracked
    · obtain ⟨unseen, moved, -⟩ := accounts.accepted older
      dsimp only at refused
      rw [moved] at refused
      cases refused

/-- Whatever calls for other queues come in between, the calls for a queue answer, and leave behind
as its tracker, what they do alone on an empty registry. Where a queue is not tracked, as in an empty
registry or behind its removal, its first snapshot gives no events, and as long as it is not removed
the later ones give what a single tracker that starts at the first gives. Only a snapshot that is
older than the tracker is refused, and then nothing changes. -/
theorem queues_isolated (queue : Address) :
    (∀ calls, (empty.answers calls).filter (·.1 = queue) =
        empty.answers (calls.filter (·.queue = queue)) ∧
      (empty.after calls).get? queue =
        (empty.after (calls.filter (·.queue = queue))).get? queue) ∧
    (empty.get? queue = none ∧ ∀ r : TrackerRegistry, (r.remove queue).2.get? queue = none) ∧
    (∀ (r : TrackerRegistry) (calls : List Call) (first : Snapshot) (rest : List Snapshot),
      r.get? queue = none →
      calls.filter (·.queue = queue) = (first :: rest).map (.observe queue) →
      (r.answers calls).filter (·.1 = queue) =
          (queue, .unseen (.ok (.complete []) : Except Error (Unseen first.ε))) ::
            ((Tracker.new first.queue).answers rest).map (queue, ·) ∧
        (r.after calls).get? queue = some ((Tracker.new first.queue).after rest)) ∧
    ∀ (r : TrackerRegistry) (snapshot : Snapshot) (e : Error),
      (r.observe queue snapshot.queue).1 = .error e →
      (r.observe queue snapshot.queue).2.trackers.Perm r.trackers ∧
        ∃ t, r.get? queue = some t ∧ snapshot.queue.sequence < t.last ∧
          e = .sequenceRegression t.last snapshot.queue.sequence := by
  refine ⟨fun calls => answers_filter queue rfl calls, ⟨rfl, fun r => ?_⟩, ?_, ?_⟩
  · rw [remove, get?_erase, if_pos rfl]
  · intro r calls first rest untracked stretch
    obtain ⟨own, kept⟩ := answers_filter queue (r := r) rfl calls
    rw [own, kept, stretch]
    exact answers_observe_first untracked first rest
  · exact fun r snapshot e refused => observe_eq_error refused

def firstQueue : Address := ⟨1⟩

def secondQueue : Address := ⟨2⟩

def alternating : List Call :=
  [.observe firstQueue Tracker.ring, .observe secondQueue Tracker.slotless,
    .observe firstQueue Tracker.slotless, .observe secondQueue Tracker.ring,
    .observe firstQueue Tracker.ring]

/-- The first queue goes on from 9 to 12 without a slot to read from, and its last snapshot is
refused; the other queue is seen at 12 already when its older snapshot comes. -/
theorem queues_isolated_alternating :
    (empty.answers alternating).filter (·.1 = firstQueue) =
        [(firstQueue, .unseen (.ok (.complete []) : Except Error (Unseen SpotEvent))),
          (firstQueue, .unseen (.ok (.overflowed 3 []) : Except Error (Unseen PerpEvent))),
          (firstQueue,
            .unseen (.error (.sequenceRegression 12 9) : Except Error (Unseen SpotEvent)))] ∧
      (empty.after alternating).get? firstQueue = some ⟨12⟩ ∧
      let r := empty.after (alternating.take 3)
      (r.observe secondQueue Tracker.ring.queue).2.trackers.Perm r.trackers := by
  obtain ⟨-, ⟨untracked, -⟩, stretches, -⟩ := queues_isolated firstQueue
  obtain ⟨-, -, -, refusals⟩ := queues_isolated secondQueue
  obtain ⟨answers, tracker⟩ := stretches empty alternating Tracker.ring
    [Tracker.slotless, Tracker.ring] untracked rfl
  have unmoved := refusals (empty.after (alternating.take 3)) Tracker.ring
    (.sequenceRegression 12 9) rfl
  exact ⟨answers.trans rfl, tracker.trans rfl, unmoved.1⟩

end TrackerRegistry
end PerpDex
