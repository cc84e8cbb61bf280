import PerpDex.Proofs.Queue.Slots
import PerpDex.Queue.Tracker

/-! A ring that is pushed to, consumed from and observed in any order. Every observation but the
first delivers the events pushed since the one before it, as far as the ring still has them. The
invariant speaks of the slots by the age of what they hold, so consuming does not touch it. -/
namespace PerpDex.EventQueue

variable {ε : Type} {q : EventQueue ε} {tracker : Tracker} {gap : List ε}

inductive Step (ε : Type) where
  | push (event : ε)
  | consume (n : Nat)
  | observe

/-- The results of the observations, the first of which only starts a tracker if there is none. -/
def observations : EventQueue ε → Option Tracker → List (Step ε) → List (Except Error (Unseen ε))
  | _, _, [] => []
  | q, tracker?, .push event :: rest => observations (q.push event) tracker? rest
  | q, tracker?, .consume n :: rest => observations (q.consume n) tracker? rest
  | q, none, .observe :: rest => observations q (some (Tracker.new q)) rest
  | q, some tracker, .observe :: rest =>
    (tracker.unseen q).1 :: observations q (some (tracker.unseen q).2) rest

def pushed : List (Step ε) → List ε
  | [] => []
  | .push event :: rest => event :: pushed rest
  | _ :: rest => pushed rest

/-- For every observation the events pushed since the one before, where `gap` was pushed before
the steps. -/
def gaps (gap : List ε) : List (Step ε) → List (List ε)
  | [] => []
  | .push event :: rest => gaps (gap ++ [event]) rest
  | .consume _ :: rest => gaps gap rest
  | .observe :: rest => gap :: gaps [] rest

/-- What a ring can deliver of the events of a gap: all of them if it has as many slots, the latest
ones and the number of the others if not. -/
def delivery (capacity : Nat) (gap : List ε) : Unseen ε :=
  if gap.length ≤ capacity then .complete gap
  else .overflowed (UInt64.ofNat (gap.length - capacity)) (gap.drop (gap.length - capacity))

def delivered : Except Error (Unseen ε) → List ε
  | .ok unseen => unseen.events
  | .error _ => []

/-- The tracker has not seen the events of `gap`, and those of them that were not overwritten
stand in the slots of their ages. -/
structure Follows (q : EventQueue ε) (tracker : Tracker) (gap : List ε) : Prop where
  sound : q.Sound
  short : q.Addressable
  counted : tracker.last.toNat + gap.length = q.sequence.toNat
  latest : ∀ age, 0 < age → age ≤ q.capacity → age ≤ gap.length →
    q.events[q.slotOfAge age]? = gap[gap.length - age]?

theorem Follows.start (sound : q.Sound) (short : q.Addressable) :
    Follows q ⟨q.sequence⟩ [] where
  sound := sound
  short := short
  counted := rfl
  latest := by
    intro age positive _ le
    simp only [List.length_nil] at le
    omega

theorem Follows.push (follows : Follows q tracker gap) (event : ε)
    (room : q.sequence.toNat + 1 < 2 ^ 64) : Follows (q.push event) tracker (gap ++ [event]) := by
  have sound := follows.sound
  have short := follows.short
  refine ⟨sound.push short event, ?_, ?_, ?_⟩
  · simpa only [Addressable, capacity_push] using short
  · have counted := follows.counted
    have next : (q.push event).sequence.toNat = q.sequence.toNat + 1 := by
      simp only [EventQueue.push, UInt64.toNat_add, UInt64.toNat_one]
      exact Nat.mod_eq_of_lt room
    rw [next, List.length_append, List.length_singleton]
    omega
  · intro age positive inside le
    obtain ⟨earlier, rfl⟩ : ∃ earlier, age = earlier + 1 := ⟨age - 1, by omega⟩
    rw [capacity_push] at inside
    rw [List.length_append, List.length_singleton] at le ⊢
    rw [slotOfAge_push sound short event (by omega), events_push]
    rcases Nat.eq_zero_or_pos earlier with rfl | before
    · have written : q.slotOfAge 0 < q.events.length := slotOfAge_lt sound 0
      simp [written]
    · -- the written slot held the event of age `capacity`, which the gap has lost
      have apart : q.slotOfAge 0 ≠ q.slotOfAge earlier := fun same =>
        before.ne (slotOfAge_injective (by omega) (by omega) same)
      have kept := follows.latest earlier before (by omega) (by omega)
      rw [List.getElem?_set_ne apart, kept, List.getElem?_append_left (by omega)]
      congr 1
      omega

theorem Follows.consume (follows : Follows q tracker gap) (n : Nat) :
    Follows (q.consume n) tracker gap := by
  have sound := follows.sound
  have short := follows.short
  refine ⟨sound.consume short n, short, follows.counted, ?_⟩
  intro age positive inside le
  rw [slotOfAge_consume sound short n inside]
  exact follows.latest age positive inside le

theorem filterMap_range_getElem? (l : List ε) :
    (List.range l.length).filterMap (fun i => l[i]?) = l := by
  induction l with
  | nil => rfl
  | cons head rest ih => simp [List.range_succ_eq_map, List.filterMap_map, ih]

theorem Follows.since (follows : Follows q tracker gap) :
    q.since tracker.last = .ok (gap.drop (gap.length - q.capacity)) := by
  have counted := follows.counted
  have distance : q.distance tracker.last = min gap.length q.capacity := by
    unfold EventQueue.distance
    omega
  have length : (gap.drop (gap.length - q.capacity)).length = min gap.length q.capacity := by
    rw [List.length_drop]
    omega
  rw [since_eq follows.sound follows.short, distance]
  refine congrArg Except.ok ?_
  rw [← filterMap_range_getElem? (gap.drop _), length]
  refine List.filterMap_congr fun i member => ?_
  have inside := List.mem_range.mp member
  rw [follows.latest _ (by omega) (by omega) (by omega), List.getElem?_drop]
  congr 1
  omega

/-- An observation delivers what the ring has of the gap, and the tracker is up to date. -/
theorem Follows.unseen (follows : Follows q tracker gap) :
    tracker.unseen q = (.ok (delivery q.capacity gap), ⟨q.sequence⟩) := by
  have counted := follows.counted
  have forward : ¬ q.sequence < tracker.last := by
    rw [UInt64.lt_iff_toNat_lt]
    omega
  have distance : q.sequence.toNat - tracker.last.toNat = gap.length := by omega
  simp only [Tracker.unseen, forward, if_false, follows.since, distance, delivery]
  by_cases fits : gap.length ≤ q.capacity
  · have whole : gap.length - q.capacity = 0 := by omega
    simp [fits, whole, Nat.not_lt.mpr fits]
  · simp [fits, Nat.not_le.mp fits]

/-- Where count and capacity do not add up within 64 bits, an observation of anything new faults. -/
theorem unseen_of_overflow (newer : tracker.last < q.sequence) (slots : 0 < q.capacity)
    (large : 2 ^ 64 ≤ q.count.toNat + q.capacity) :
    tracker.unseen q = (.error (.fault .overflow), tracker) := by
  rw [UInt64.lt_iff_toNat_lt] at newer
  have forward : ¬ q.sequence < tracker.last := by
    rw [UInt64.lt_iff_toNat_lt]
    omega
  have wanted : q.distance tracker.last ≠ 0 := by
    unfold distance
    omega
  simp only [Tracker.unseen, forward, EventQueue.since, wanted, large, if_false, if_true]

theorem toNat_sequence_push_le (q : EventQueue ε) (event : ε) :
    (q.push event).sequence.toNat ≤ q.sequence.toNat + 1 := by
  simp only [EventQueue.push, UInt64.toNat_add, UInt64.toNat_one]
  exact Nat.mod_le ..

theorem Follows.observations (follows : Follows q tracker gap) (steps : List (Step ε))
    (room : q.sequence.toNat + (pushed steps).length < 2 ^ 64) :
    observations q (some tracker) steps =
      (gaps gap steps).map fun gap => .ok (delivery q.capacity gap) := by
  induction steps generalizing q tracker gap with
  | nil => rfl
  | cons step rest ih =>
    cases step with
    | push event =>
      have next := toNat_sequence_push_le q event
      simp only [pushed, List.length_cons] at room
      rw [EventQueue.observations, ih (follows.push event (by omega)) (by omega), capacity_push]
      rfl
    | consume n => exact ih (follows.consume n) room
    | observe =>
      rw [EventQueue.observations, follows.unseen, gaps, List.map_cons,
        ih (.start follows.sound follows.short) room]

/-- A run without a tracker: the gap in front of the first observation is not delivered. -/
theorem observations_eq_map_gaps (sound : q.Sound) (short : q.Addressable) (gap : List ε)
    (steps : List (Step ε)) (room : q.sequence.toNat + (pushed steps).length < 2 ^ 64) :
    observations q none steps =
      (gaps gap steps).tail.map fun gap => .ok (delivery q.capacity gap) := by
  induction steps generalizing q gap with
  | nil => rfl
  | cons step rest ih =>
    cases step with
    | push event =>
      have next := toNat_sequence_push_le q event
      have short' : (q.push event).Addressable := by
        simpa only [Addressable, capacity_push] using short
      simp only [pushed, List.length_cons] at room
      rw [observations, ih (sound.push short event) short' (gap ++ [event]) (by omega),
        capacity_push]
      rfl
    | consume n => exact ih (sound.consume short n) short gap room
    | observe => exact (Follows.start sound short).observations rest room

theorem delivered_delivery {capacity : Nat} (fits : gap.length ≤ capacity) :
    delivered (.ok (delivery capacity gap)) = gap := by
  simp [delivered, delivery, fits, Unseen.events]

/-- Up to a last observation the gaps hold every event pushed, each once and in order. -/
theorem flatten_gaps (gap : List ε) (steps : List (Step ε)) :
    (gaps gap (steps ++ [.observe])).flatten = gap ++ pushed steps := by
  induction steps generalizing gap with
  | nil => simp [gaps, pushed]
  | cons step rest ih => cases step <;> simp [gaps, pushed, ih]

theorem tail_gaps {before : List (Step ε)} (unobserved : ∀ step ∈ before, step ≠ .observe)
    (gap : List ε) (after : List (Step ε)) :
    (gaps gap (before ++ .observe :: after)).tail = gaps [] after := by
  induction before generalizing gap with
  | nil => rfl
  | cons step rest ih =>
    have later := ih fun step member => unobserved step (List.mem_cons_of_mem _ member)
    cases step with
    | push event => exact later _
    | consume n => exact later _
    | observe => exact absurd rfl (unobserved .observe List.mem_cons_self)

/-- Whatever the order of pushes, consumptions and observations, an observation gives the events
pushed since the last one, or the latest of them and the number of the others when there are more
than slots. If there never are, every event after the first observation is given once, in order. -/
theorem observations_deliver_pushed (q : EventQueue ε) (steps : List (Step ε)) (sound : q.Sound)
    (short : q.Addressable) (room : q.sequence.toNat + (pushed steps).length < 2 ^ 64) :
    observations q none steps =
        (gaps [] steps).tail.map (fun gap => .ok (delivery q.capacity gap)) ∧
      ∀ before after, steps = before ++ .observe :: (after ++ [.observe]) →
        (∀ step ∈ before, step ≠ .observe) →
        (∀ gap ∈ gaps [] (after ++ [.observe]), gap.length ≤ q.capacity) →
        (observations q none steps).flatMap delivered = pushed after := by
  have results := observations_eq_map_gaps sound short [] steps room
  refine ⟨results, ?_⟩
  intro before after split unobserved fit
  rw [results, split, tail_gaps unobserved, List.flatMap_map]
  calc (gaps [] (after ++ [.observe])).flatMap (fun gap => delivered (.ok (delivery q.capacity gap)))
      = (gaps [] (after ++ [.observe])).flatMap id :=
        List.flatMap_congr fun gap member => delivered_delivery (fit gap member)
    _ = pushed after := by
      rw [List.flatMap_id, flatten_gaps, List.nil_append]

/-- A full ring of two slots that wraps: both events of the first gap arrive, then the ring loses
the first of three. -/
theorem observations_deliver_pushed_wrapped :
    let q : EventQueue Nat := ⟨1, 2, 7, [10, 20]⟩
    let steps : List (Step Nat) := [.push 30, .observe, .push 40, .consume 1, .push 50, .observe,
      .push 60, .push 70, .push 80, .observe]
    q.Sound ∧ q.Addressable ∧ q.sequence.toNat + (pushed steps).length < 2 ^ 64 ∧
      observations q none steps = [.ok (.complete [40, 50]), .ok (.overflowed 1 [70, 80])] := by
  intro q steps
  have sound : q.Sound := ⟨by decide, by decide⟩
  have short : q.Addressable := by unfold Addressable; decide
  have room : q.sequence.toNat + (pushed steps).length < 2 ^ 64 := by decide
  exact ⟨sound, short, room, (observations_deliver_pushed q steps sound short room).1.trans rfl⟩

/-- A full ring of events that take no memory. -/
def filled : EventQueue Unit := ⟨0, 0x8000000000000000, 0, List.replicate (2 ^ 63) ()⟩

theorem capacity_filled : filled.capacity = 2 ^ 63 := by
  rw [capacity, filled, List.length_replicate]

theorem count_push_filled : (filled.push ()).count.toNat = 2 ^ 63 := by
  have full : filled.count.toNat = filled.capacity := by
    rw [capacity_filled, filled]
    decide
  simp only [push, full, if_true, capacity_filled]

/-- A push to a full ring does not change its count. With 2 ^ 63 live events in as many slots the
observation of the one new event faults, where a smaller ring delivers it. -/
theorem observations_of_filled :
    let steps : List (Step Unit) := [.observe, .push (), .observe]
    filled.Sound ∧ filled.sequence.toNat + (pushed steps).length < 2 ^ 64 ∧
      (gaps [] steps).tail.map (fun gap => Except.ok (delivery filled.capacity gap)) =
        [(.ok (.complete [()]) : Except Error (Unseen Unit))] ∧
      observations filled none steps = [.error (.fault .overflow)] := by
  intro steps
  have sound : filled.Sound := by
    constructor <;> rw [capacity_filled] <;> decide
  have expected : delivery filled.capacity [()] = .complete [()] := by
    rw [delivery, capacity_filled, if_pos (by decide)]
  have large : 2 ^ 64 ≤ (filled.push ()).count.toNat + (filled.push ()).capacity := by
    rw [count_push_filled, capacity_push, capacity_filled]
    decide
  have fault : (Tracker.new filled).unseen (filled.push ()) =
      (.error (.fault .overflow), Tracker.new filled) := by
    refine unseen_of_overflow (by decide) ?_ large
    rw [capacity_push, capacity_filled]
    decide
  refine ⟨sound, by decide, ?_, ?_⟩
  · simp only [steps, gaps, List.tail_cons, List.map_cons, List.map_nil, List.nil_append, expected]
  · simp only [steps, observations, fault]

end PerpDex.EventQueue
