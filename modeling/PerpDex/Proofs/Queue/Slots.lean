import Mathlib.Data.List.Basic
import Mathlib.Data.Nat.ModEq
import PerpDex.Queue.Writer

/-! Where the events of a ring stand. The slot of an event is named by how many pushes ago it was
written, since that is what pushes shift by one and consuming leaves alone. Reading backwards from
the write position gives the pushed events as long as the sums of slot numbers do not wrap. -/
namespace PerpDex.EventQueue

variable {ε : Type} {q : EventQueue ε}

/-- The head is a slot, and there are no more live events than slots. -/
structure Sound (q : EventQueue ε) : Prop where
  head_lt : q.head.toNat < q.capacity
  count_le : q.count.toNat ≤ q.capacity

/-- Head, number of live events and capacity add up within 64 bits, wherever the head stands. No list
takes 2 ^ 63 bytes of memory, so all rings of events of two bytes or more are addressable. A ring of
smaller events can have more slots, and then what is pushed is not what is read: the sums wrap, or
overflow as in `unseen_of_overflow`. -/
def Addressable (q : EventQueue ε) : Prop := 3 * q.capacity ≤ 2 ^ 64 + 1

/-- The slot that was written `age` pushes ago, the latest event being of age one. -/
def slotOfAge (q : EventQueue ε) (age : Nat) : Nat :=
  (q.head.toNat + q.count.toNat + q.capacity - age) % q.capacity

@[simp] theorem capacity_push (q : EventQueue ε) (event : ε) :
    (q.push event).capacity = q.capacity := by simp [push, capacity]

@[simp] theorem capacity_consume (q : EventQueue ε) (n : Nat) :
    (q.consume n).capacity = q.capacity := rfl

theorem Sound.capacity_pos (sound : q.Sound) : 0 < q.capacity :=
  Nat.zero_lt_of_lt sound.head_lt

theorem toNat_slot (sound : q.Sound) (short : q.Addressable) (n : Nat) :
    (UInt64.ofNat (n % q.capacity)).toNat = n % q.capacity := by
  have inside := Nat.mod_lt n sound.capacity_pos
  unfold Addressable at short
  rw [UInt64.toNat_ofNat']
  exact Nat.mod_eq_of_lt (by omega)

theorem toNat_head_push (sound : q.Sound) (short : q.Addressable) (event : ε) :
    (q.push event).head.toNat =
      if q.count.toNat = q.capacity then (q.head.toNat + 1) % q.capacity else q.head.toNat := by
  simp only [push]
  split
  · exact toNat_slot sound short _
  · rfl

theorem toNat_count_push (sound : q.Sound) (short : q.Addressable) (event : ε) :
    (q.push event).count.toNat =
      if q.count.toNat = q.capacity then q.capacity else q.count.toNat + 1 := by
  have bound := sound.count_le
  unfold Addressable at short
  simp only [push]
  split
  · assumption
  · rw [UInt64.toNat_add, UInt64.toNat_one]
    exact Nat.mod_eq_of_lt (by omega)

theorem toNat_head_consume (sound : q.Sound) (short : q.Addressable) (n : Nat) :
    (q.consume n).head.toNat = (q.head.toNat + min n q.count.toNat) % q.capacity :=
  toNat_slot sound short _

theorem toNat_count_consume (q : EventQueue ε) (n : Nat) :
    (q.consume n).count.toNat = q.count.toNat - min n q.count.toNat := by
  have := q.count.toNat_lt
  simp only [consume, UInt64.toNat_ofNat']
  exact Nat.mod_eq_of_lt (by omega)

theorem Sound.push (sound : q.Sound) (short : q.Addressable) (event : ε) :
    (q.push event).Sound := by
  have head := sound.head_lt
  have count := sound.count_le
  constructor
  · rw [toNat_head_push sound short, capacity_push]
    split
    · exact Nat.mod_lt _ sound.capacity_pos
    · exact head
  · rw [toNat_count_push sound short, capacity_push]
    split <;> omega

theorem Sound.consume (sound : q.Sound) (short : q.Addressable) (n : Nat) :
    (q.consume n).Sound := by
  constructor
  · rw [toNat_head_consume sound short, capacity_consume]
    exact Nat.mod_lt _ sound.capacity_pos
  · have count := sound.count_le
    rw [toNat_count_consume, capacity_consume]
    omega

/-- A push moves the write position on by one slot, whether the ring was full or not. -/
theorem write_push (sound : q.Sound) (short : q.Addressable) (event : ε) :
    (q.push event).head.toNat + (q.push event).count.toNat
      ≡ q.head.toNat + q.count.toNat + 1 [MOD q.capacity] := by
  rw [toNat_head_push sound short, toNat_count_push sound short]
  by_cases full : q.count.toNat = q.capacity
  · simp only [full, if_true]
    calc (q.head.toNat + 1) % q.capacity + q.capacity
        ≡ q.head.toNat + 1 + q.capacity [MOD q.capacity] := (Nat.mod_modEq _ _).add_right _
      _ = q.head.toNat + q.capacity + 1 := by omega
  · simp only [full, if_false]
    exact Nat.ModEq.refl _

/-- Consuming leaves the write position where it is: the head moves on by as many slots as there
are fewer live events. -/
theorem write_consume (sound : q.Sound) (short : q.Addressable) (n : Nat) :
    (q.consume n).head.toNat + (q.consume n).count.toNat
      ≡ q.head.toNat + q.count.toNat [MOD q.capacity] := by
  rw [toNat_head_consume sound short, toNat_count_consume]
  calc (q.head.toNat + min n q.count.toNat) % q.capacity + (q.count.toNat - min n q.count.toNat)
      ≡ q.head.toNat + min n q.count.toNat + (q.count.toNat - min n q.count.toNat)
        [MOD q.capacity] := (Nat.mod_modEq _ _).add_right _
    _ = q.head.toNat + q.count.toNat := by omega

/-- Counting on from a slot by its age leads to the write position. -/
theorem slotOfAge_add {age : Nat} (le : age ≤ q.capacity) :
    q.slotOfAge age + age ≡ q.head.toNat + q.count.toNat [MOD q.capacity] := by
  have whole : q.head.toNat + q.count.toNat + q.capacity - age + age
      = q.head.toNat + q.count.toNat + q.capacity := by omega
  calc q.slotOfAge age + age
      ≡ q.head.toNat + q.count.toNat + q.capacity - age + age [MOD q.capacity] :=
        (Nat.mod_modEq _ _).add_right _
    _ = q.head.toNat + q.count.toNat + q.capacity := whole
    _ ≡ q.head.toNat + q.count.toNat [MOD q.capacity] := Nat.add_modEq_right

theorem slotOfAge_lt (sound : q.Sound) (age : Nat) : q.slotOfAge age < q.capacity :=
  Nat.mod_lt _ sound.capacity_pos

/-- A slot is the one of an age if counting on by the age leads to the write position. -/
theorem slotOfAge_eq {slot age : Nat} (inside : slot < q.capacity) (le : age ≤ q.capacity)
    (leads : slot + age ≡ q.head.toNat + q.count.toNat [MOD q.capacity]) :
    q.slotOfAge age = slot := by
  have same := (slotOfAge_add le).trans leads.symm
  have lt : q.slotOfAge age < q.capacity := Nat.mod_lt _ (Nat.zero_lt_of_lt inside)
  exact (Nat.ModEq.add_right_cancel' age same).eq_of_lt_of_lt lt inside

/-- Ages of one slot differ by whole turns of the ring. -/
theorem modEq_of_slotOfAge_eq {a b : Nat} (ha : a ≤ q.capacity) (hb : b ≤ q.capacity)
    (same : q.slotOfAge a = q.slotOfAge b) : a ≡ b [MOD q.capacity] := by
  have first := slotOfAge_add ha
  have second := slotOfAge_add hb
  rw [same] at first
  exact Nat.ModEq.add_left_cancel' (q.slotOfAge b) (first.trans second.symm)

theorem slotOfAge_injective {a b : Nat} (ha : a < q.capacity) (hb : b < q.capacity)
    (same : q.slotOfAge a = q.slotOfAge b) : a = b :=
  (modEq_of_slotOfAge_eq (Nat.le_of_lt ha) (Nat.le_of_lt hb) same).eq_of_lt_of_lt ha hb

theorem slotOfAge_push (sound : q.Sound) (short : q.Addressable) (event : ε) {age : Nat}
    (lt : age < q.capacity) : (q.push event).slotOfAge (age + 1) = q.slotOfAge age := by
  apply slotOfAge_eq <;> rw [capacity_push]
  · exact slotOfAge_lt sound age
  · exact lt
  · rw [← Nat.add_assoc]
    exact ((slotOfAge_add (Nat.le_of_lt lt)).add_right 1).trans (write_push sound short event).symm

theorem slotOfAge_consume (sound : q.Sound) (short : q.Addressable) (n : Nat) {age : Nat}
    (le : age ≤ q.capacity) : (q.consume n).slotOfAge age = q.slotOfAge age := by
  apply slotOfAge_eq
  · exact slotOfAge_lt sound age
  · exact le
  · exact (slotOfAge_add le).trans (write_consume sound short n).symm

theorem events_push (q : EventQueue ε) (event : ε) :
    (q.push event).events = q.events.set (q.slotOfAge 0) event := by
  simp [push, slotOfAge]

/-- Behind the head, the slots up to the write position are met from the greatest age down. -/
theorem slotOf_eq_slotOfAge (sound : q.Sound) (short : q.Addressable) {distance i : Nat}
    (le : distance ≤ q.capacity) (lt : i < distance) :
    q.slotOf (q.count.toNat + q.capacity - distance + i) = q.slotOfAge (distance - i) := by
  have head := sound.head_lt
  have count := sound.count_le
  unfold Addressable at short
  have sum : q.head.toNat + (q.count.toNat + q.capacity - distance + i)
      = q.head.toNat + q.count.toNat + q.capacity - (distance - i) := by omega
  have noWrap : q.head.toNat + q.count.toNat + q.capacity - (distance - i) < 2 ^ 64 := by omega
  rw [slotOf, slotOfAge, sum, Nat.mod_eq_of_lt noWrap]

/-- Where every element has a value, mapping keeps what filtering would drop. -/
theorem map_some_filterMap {α β : Type} {f : α → Option β} {l : List α}
    (all : ∀ a ∈ l, (f a).isSome) : (l.filterMap f).map some = l.map f := by
  rw [List.map_filterMap_some_eq_filter_map_isSome, List.filter_eq_self]
  intro b member
  obtain ⟨a, inside, rfl⟩ := List.mem_map.mp member
  exact all a inside

/-- The latest events are read from the slots of their ages, and reading them does not fail. -/
theorem since_eq (sound : q.Sound) (short : q.Addressable) (last : UInt64) :
    q.since last = .ok ((List.range (q.distance last)).filterMap fun i =>
      q.events[q.slotOfAge (q.distance last - i)]?) := by
  have count := sound.count_le
  have positive := sound.capacity_pos
  have le : q.distance last ≤ q.capacity := Nat.min_le_right ..
  have noOverflow : ¬ 2 ^ 64 ≤ q.count.toNat + q.capacity := by
    unfold Addressable at short
    omega
  simp only [since, window, noOverflow, positive.ne', if_false]
  split
  · simp [*]
  · refine congrArg Except.ok (List.filterMap_congr fun i member => ?_)
    rw [slotOf_eq_slotOfAge sound short le (List.mem_range.mp member)]

end PerpDex.EventQueue
