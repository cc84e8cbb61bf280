import Mathlib.Data.List.Nodup
import PerpDex.Proofs.Queue.Decoding
import PerpDex.Proofs.Queue.Delivery

/-! Following queues through whatever snapshots come. Nothing ties one snapshot to the next: heads,
counts, sequence numbers and capacities may be anything that decodes. Every call still accounts for
the whole step of the sequence number, so the numbers of delivered and missed events add up over a
run. -/
namespace PerpDex

namespace EventQueue

variable {ε : Type} {q : EventQueue ε}

/-- A queue that was read from an account of either market. No account in memory has `2 ^ 64`
bytes. -/
inductive Decoded : {ε : Type} → EventQueue ε → Prop where
  | perp {data : Bytes} {q : PerpEventQueue} : data.length < 2 ^ 64 →
      PerpEventQueue.decode data = .ok q → Decoded q
  | spot {data : Bytes} {q : SpotEventQueue} : data.length < 2 ^ 64 →
      SpotEventQueue.decode data = .ok q → Decoded q

theorem sound_ofSlots {size n : Nat} {body : Bytes} (shaped : Shaped size n body) (some : n ≠ 0)
    (read : Nat → Bytes → ε) : (ofSlots size n read body).Sound where
  head_lt := by
    rw [toNat_head_ofSlots some, capacity_ofSlots]
    exact Nat.mod_lt _ (Nat.pos_of_ne_zero some)
  count_le := by
    rw [capacity_ofSlots]
    exact shaped.count_le

theorem addressable_ofSlots {size n : Nat} {body : Bytes} (shaped : Shaped size n body)
    (large : 3 ≤ size) (inMemory : body.length < 2 ^ 64) (read : Nat → Bytes → ε) :
    (ofSlots size n read body).Addressable := by
  have slots : 3 * n ≤ size * n := Nat.mul_le_mul_right n large
  have whole := shaped.length_eq
  rw [Addressable, capacity_ofSlots]
  omega

/-- The slots of a decoded queue add up within 64 bits, and if there are any, the head is one of
them and no more events are live than there are. -/
theorem Decoded.sound (decoded : Decoded q) : q.Addressable ∧ (q.capacity ≠ 0 → q.Sound) := by
  cases decoded with
  | @perp data q inMemory read =>
    obtain ⟨n, shaped, -, rfl⟩ := (perp_decode_eq_ok_iff data q).mp read
    refine ⟨addressable_ofSlots shaped (by decide) inMemory _, fun some => ?_⟩
    rw [capacity_ofSlots] at some
    exact sound_ofSlots shaped some _
  | @spot data q inMemory read =>
    obtain ⟨body, n, rfl, shaped, rfl⟩ := (spot_decode_eq_ok_iff data q).mp read
    have shorter : body.length < 2 ^ 64 := by
      simp only [Framing.wrap, List.length_append] at inMemory
      omega
    refine ⟨addressable_ofSlots shaped (by decide) shorter _, fun some => ?_⟩
    rw [capacity_ofSlots] at some
    exact sound_ofSlots shaped some _

def latestSlots (q : EventQueue ε) (n : Nat) : List Nat :=
  (List.range n).map fun i => q.slotOfAge (n - i)

theorem latestSlots_nodup {n : Nat} (le : n ≤ q.capacity) : (q.latestSlots n).Nodup := by
  refine List.Nodup.map_on ?_ List.nodup_range
  intro i inside j inside' same
  rw [List.mem_range] at inside inside'
  have turns := modEq_of_slotOfAge_eq (by omega) (by omega) same
  -- ages count from one, so the oldest age is the capacity itself: shift both down by one
  have shifted : n - i - 1 ≡ n - j - 1 [MOD q.capacity] := by
    refine Nat.ModEq.add_right_cancel' 1 ?_
    rwa [Nat.sub_add_cancel (by omega), Nat.sub_add_cancel (by omega)]
  have := shifted.eq_of_lt_of_lt (by omega) (by omega)
  omega

/-- The events that a call is to deliver are read from as many slots, all of them different. -/
theorem Decoded.since (decoded : Decoded q) (last : UInt64) :
    ∃ events, q.since last = .ok events ∧
      events.map some = (q.latestSlots (q.distance last)).map fun slot => q.events[slot]? := by
  by_cases empty : q.capacity = 0
  · have nothing : q.distance last = 0 := by
      rw [distance, empty, Nat.min_zero]
    refine ⟨[], ?_, ?_⟩
    · simp only [EventQueue.since, nothing, if_true]
    · rw [nothing]
      rfl
  · have sound := decoded.sound.2 empty
    refine ⟨_, since_eq sound decoded.sound.1 last, ?_⟩
    rw [map_some_filterMap, latestSlots, List.map_map]
    · rfl
    · intro i _
      rw [List.getElem?_eq_getElem (slotOfAge_lt sound _), Option.isSome_some]

end EventQueue

structure Snapshot where
  {ε : Type}
  queue : EventQueue ε
  decoded : queue.Decoded

namespace Tracker

open Bytes

variable {ε : Type}

def missedBy : Except Error (Unseen ε) → Nat
  | .ok unseen => unseen.missed.toNat
  | .error _ => 0

def after (t : Tracker) : List Snapshot → Tracker
  | [] => t
  | s :: rest => after (t.unseen s.queue).2 rest

def delivered (t : Tracker) : List Snapshot → Nat
  | [] => 0
  | s :: rest =>
    (EventQueue.delivered (t.unseen s.queue).1).length + delivered (t.unseen s.queue).2 rest

def missed (t : Tracker) : List Snapshot → Nat
  | [] => 0
  | s :: rest => missedBy (t.unseen s.queue).1 + missed (t.unseen s.queue).2 rest

/-- What one call does with a snapshot. An older one is refused. Of a newer one the call delivers
or misses as many events as the sequence number went on by, and what it delivers stands in slots of
which no two are the same. -/
structure Accounts (t : Tracker) (q : EventQueue ε) : Prop where
  refused_iff : (t.unseen q).1 = .error (.sequenceRegression t.last q.sequence) ↔
    q.sequence < t.last
  unmoved : q.sequence < t.last → (t.unseen q).2 = t
  accepted : ¬q.sequence < t.last → ∃ unseen, t.unseen q = (.ok unseen, ⟨q.sequence⟩) ∧
    ((∃ missed recovered, unseen = .overflowed missed recovered) ↔
      q.capacity < q.sequence.toNat - t.last.toNat) ∧
    unseen.events.length + unseen.missed.toNat = q.sequence.toNat - t.last.toNat ∧
    ∃ slots : List Nat, slots.Nodup ∧ unseen.events.map some = slots.map fun slot => q.events[slot]?

theorem unseen_of_lt {t : Tracker} {q : EventQueue ε} (older : q.sequence < t.last) :
    t.unseen q = (.error (.sequenceRegression t.last q.sequence), t) := by
  rw [unseen, if_pos older]

/-- The answer for a snapshot that is not older, as the advance compares with the capacity. -/
theorem unseen_of_since {t : Tracker} {q : EventQueue ε} {events : List ε}
    (newer : ¬q.sequence < t.last) (read : q.since t.last = .ok events) :
    t.unseen q =
      (.ok (if q.capacity < q.sequence.toNat - t.last.toNat then
        .overflowed (UInt64.ofNat (q.sequence.toNat - t.last.toNat - q.capacity)) events
        else .complete events), ⟨q.sequence⟩) := by
  rw [unseen, if_neg newer, read]

theorem accounts (t : Tracker) {q : EventQueue ε} (decoded : q.Decoded) : t.Accounts q := by
  obtain ⟨events, read, slots⟩ := decoded.since t.last
  have answer (newer : ¬q.sequence < t.last) := unseen_of_since newer read
  have count : events.length = min (q.sequence.toNat - t.last.toNat) q.capacity := by
    simpa [EventQueue.latestSlots, EventQueue.distance] using congrArg List.length slots
  have distinct := EventQueue.latestSlots_nodup (q := q) (n := q.distance t.last)
    (Nat.min_le_right ..)
  refine ⟨⟨fun refused => ?_, fun older => ?_⟩, fun older => ?_, fun newer => ?_⟩
  · by_contra newer
    rw [answer newer] at refused
    cases refused
  · rw [unseen_of_lt older]
  · rw [unseen_of_lt older]
  · refine ⟨_, answer newer, ?_⟩
    have range := q.sequence.toNat_lt
    by_cases lost : q.capacity < q.sequence.toNat - t.last.toNat
    · simp only [if_pos lost]
      refine ⟨iff_of_true ⟨_, _, rfl⟩ lost, ?_, _, distinct, slots⟩
      have fits : q.sequence.toNat - t.last.toNat - q.capacity < 2 ^ 64 := by omega
      rw [Unseen.events, Unseen.missed, UInt64.toNat_ofNat', Nat.mod_eq_of_lt fits]
      omega
    · simp only [if_neg lost]
      refine ⟨iff_of_false ?_ lost, ?_, _, distinct, slots⟩
      · rintro ⟨missed, recovered, same⟩
        cases same
      · rw [Unseen.events, Unseen.missed, UInt64.toNat_zero]
        omega

/-- One call moves the last sequence number on by what it delivers and what it misses. -/
theorem last_unseen (t : Tracker) {q : EventQueue ε} (decoded : q.Decoded) :
    t.last.toNat + (EventQueue.delivered (t.unseen q).1).length + missedBy (t.unseen q).1 =
      (t.unseen q).2.last.toNat := by
  have accounts := t.accounts decoded
  by_cases older : q.sequence < t.last
  · rw [unseen_of_lt older]
    rfl
  · obtain ⟨unseen, answer, -, sum, -⟩ := accounts.accepted older
    rw [UInt64.lt_iff_toNat_lt] at older
    rw [answer]
    simp only [EventQueue.delivered, missedBy]
    omega

theorem after_append (t : Tracker) (first second : List Snapshot) :
    t.after (first ++ second) = (t.after first).after second := by
  induction first generalizing t with
  | nil => rfl
  | cons s rest ih => exact ih _

/-- Over a run the delivered and the missed events make up the whole way of the last sequence
number, and each of its calls answers as `Accounts` says, without ever moving backwards. -/
theorem run_accounts (t : Tracker) (snapshots : List Snapshot) :
    (∀ before s later, snapshots = before ++ s :: later →
      (t.after before).Accounts s.queue ∧ (t.after before).last ≤ (t.after (before ++ [s])).last) ∧
    t.last.toNat + t.delivered snapshots + t.missed snapshots = (t.after snapshots).last.toNat := by
  constructor
  · rintro before s later -
    have step := (t.after before).last_unseen s.decoded
    refine ⟨(t.after before).accounts s.decoded, ?_⟩
    rw [after_append, UInt64.le_iff_toNat_le]
    simp only [after]
    omega
  · induction snapshots generalizing t with
    | nil => rfl
    | cons s rest ih =>
      have step := t.last_unseen s.decoded
      have further := ih (t.unseen s.queue).2
      simp only [after, delivered, missed]
      omega

def ring : Snapshot where
  queue := EventQueue.ofSlots 88 3 SpotEvent.read EventQueue.greatestHead
  decoded := by
    refine .spot ?_ ((EventQueue.spot_decode_eq_ok_iff _ _).mpr
      ⟨EventQueue.greatestHead, 3, rfl, ⟨by decide +kernel, by decide +kernel⟩, rfl⟩)
    decide +kernel

def slotless : Snapshot where
  queue := EventQueue.ofSlots 200 0 PerpEvent.read
    (ofU8 AccountKind.eventQueue.toByte ++ List.replicate 23 0 ++ ofU64 12)
  decoded := by
    refine .perp ?_ ((EventQueue.perp_decode_eq_ok_iff _ _).mpr
      ⟨0, ⟨by decide +kernel, by decide +kernel⟩, by decide +kernel, rfl⟩)
    decide +kernel

/-- Of the five events up to 9 the ring delivers three; the next three are lost; the ring is then
too old. -/
theorem run_of_ring :
    let snapshots := [ring, slotless, ring]
    let t : Tracker := ⟨4⟩
    t.delivered snapshots = 3 ∧ t.missed snapshots = 5 ∧ (t.after snapshots).last = 12 ∧
      ((t.after [ring, slotless]).unseen ring.queue).1 = .error (.sequenceRegression 12 9) := by
  intro snapshots t
  obtain ⟨each, sum⟩ := t.run_accounts snapshots
  have delivered : t.delivered snapshots = 3 := by decide +kernel
  have missed : t.missed snapshots = 5 := by decide +kernel
  have refused := ((each [ring, slotless] ring [] rfl).1).refused_iff.mpr (by decide +kernel)
  refine ⟨delivered, missed, ?_, refused⟩
  rw [delivered, missed] at sum
  exact UInt64.toNat_inj.mp sum.symm

end Tracker
end PerpDex
