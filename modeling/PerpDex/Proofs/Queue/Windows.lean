import PerpDex.Proofs.Queue.Conservation

/-! How the windows of a queue fit together. The live events are the latest ones, and the processed
events that are still there stand right before them; all readable events are the one part followed by
the other. Each window counts its slots in a way of its own, but by the age of the slots all of them
are stretches of one sequence that ends at the write position. -/
namespace PerpDex.EventQueue

variable {ε : Type} {q : EventQueue ε} {age n : Nat}

def read (q : EventQueue ε) (slots : List Nat) : List ε := slots.filterMap fun slot => q.events[slot]?

/-- The slots of `n` events in the order they were pushed, the first of them of the given age. -/
def slotsFrom (q : EventQueue ε) (age n : Nat) : List Nat :=
  (List.range n).map fun i => q.slotOfAge (age - i)

/-- The slots that the events since a sequence number are read from, counted on from the head. -/
def slotsSince (q : EventQueue ε) (last : UInt64) : List Nat :=
  (List.range (q.distance last)).map fun j =>
    q.slotOf (q.count.toNat + q.capacity - q.distance last + j)

def retained (q : EventQueue ε) : Nat :=
  min (q.sequence.toNat - q.count.toNat) (q.capacity - q.count.toNat)

theorem read_append (q : EventQueue ε) (first second : List Nat) :
    q.read (first ++ second) = q.read first ++ q.read second :=
  List.filterMap_append

/-- Events that follow each other stand in two stretches one after the other. -/
theorem slotsFrom_add (q : EventQueue ε) (age m n : Nat) :
    q.slotsFrom age (m + n) = q.slotsFrom age m ++ q.slotsFrom (age - m) n := by
  simp only [slotsFrom, List.range_add, List.map_append, List.map_map, Function.comp_def,
    Nat.sub_sub]

/-- Counting on from the head and counting back from the write position lead to one slot if together
they make up the live events, or these and a whole turn of the ring. -/
theorem slotOf_eq_of_meet (sound : q.Sound) (short : q.Addressable) {offset : Nat}
    (le : age ≤ q.capacity)
    (meet : offset + age = q.count.toNat ∨ offset + age = q.count.toNat + q.capacity) :
    q.slotOf offset = q.slotOfAge age := by
  have head := sound.head_lt
  have count := sound.count_le
  unfold Addressable at short
  have noWrap : q.head.toNat + offset < 2 ^ 64 := by omega
  rw [slotOf, slotOfAge, Nat.mod_eq_of_lt noWrap]
  obtain meet | meet := meet
  · have turn : q.head.toNat + q.count.toNat + q.capacity - age =
        q.head.toNat + offset + q.capacity := by omega
    rw [turn, Nat.add_mod_right]
  · have same : q.head.toNat + q.count.toNat + q.capacity - age = q.head.toNat + offset := by omega
    rw [same]

theorem Decoded.count_le (decoded : q.Decoded) : q.count.toNat ≤ q.capacity := by
  cases decoded with
  | @perp data q inMemory read =>
    obtain ⟨n, shaped, -, rfl⟩ := (perp_decode_eq_ok_iff data q).mp read
    rw [capacity_ofSlots]
    exact shaped.count_le
  | @spot data q inMemory read =>
    obtain ⟨body, n, rfl, shaped, rfl⟩ := (spot_decode_eq_ok_iff data q).mp read
    rw [capacity_ofSlots]
    exact shaped.count_le

/-- A queue without slots has no live events, so that no window of it asks for a slot. -/
theorem Decoded.window_eq (decoded : q.Decoded) {first : Nat} (le : age ≤ q.capacity)
    (inside : n ≤ age)
    (meet : first + age = q.count.toNat ∨ first + age = q.count.toNat + q.capacity) :
    q.window first n = .ok (q.read (q.slotsFrom age n)) := by
  unfold window
  split
  · subst n
    rfl
  · rename_i some
    have slots : q.capacity ≠ 0 := by omega
    rw [if_neg slots, read, slotsFrom, List.filterMap_map]
    refine congrArg Except.ok (List.filterMap_congr fun i member => ?_)
    rw [List.mem_range] at member
    have slot : q.slotOf (first + i) = q.slotOfAge (age - i) :=
      slotOf_eq_of_meet (decoded.sound.2 slots) decoded.sound.1 (by omega) (by omega)
    rw [Function.comp_apply, slot]

theorem Decoded.live_eq (decoded : q.Decoded) :
    q.live = .ok (q.read (q.slotsFrom q.count.toNat q.count.toNat)) :=
  decoded.window_eq decoded.count_le (Nat.le_refl _) (.inl (Nat.zero_add _))

theorem Decoded.processed_eq (decoded : q.Decoded) :
    q.processed = .ok (q.read (q.slotsFrom (q.count.toNat + q.retained) q.retained)) := by
  have count := decoded.count_le
  have room : q.retained ≤ q.capacity - q.count.toNat := Nat.min_le_right ..
  have turn : q.capacity - q.retained + (q.count.toNat + q.retained) =
      q.count.toNat + q.capacity := by omega
  exact decoded.window_eq (by omega) (Nat.le_add_left ..) (.inr turn)

theorem Decoded.since_eq (decoded : q.Decoded) (last : UInt64) :
    q.since last = .ok (q.read (q.slotsFrom (q.distance last) (q.distance last))) := by
  have count := decoded.count_le
  have short := decoded.sound.1
  have le : q.distance last ≤ q.capacity := Nat.min_le_right ..
  unfold Addressable at short
  have noOverflow : ¬2 ^ 64 ≤ q.count.toNat + q.capacity := by omega
  simp only [EventQueue.since, if_neg noOverflow]
  split
  · rename_i nothing
    rw [nothing]
    rfl
  · exact decoded.window_eq le (Nat.le_refl _) (.inr (by omega))

theorem Decoded.slotsSince_eq (decoded : q.Decoded) (last : UInt64) :
    q.slotsSince last = q.latestSlots (q.distance last) := by
  refine List.map_congr_left fun j member => ?_
  have le : q.distance last ≤ q.capacity := Nat.min_le_right ..
  rw [List.mem_range] at member
  exact slotOf_eq_of_meet (decoded.sound.2 (by omega)) decoded.sound.1 (by omega) (.inr (by omega))

/-- No slot of a stretch lies outside the ring, so that reading gives one event for each. -/
theorem Decoded.map_some_read (decoded : q.Decoded) (le : age ≤ q.capacity) (inside : n ≤ age) :
    (q.read (q.slotsFrom age n)).map some = (q.slotsFrom age n).map fun slot => q.events[slot]? := by
  refine map_some_filterMap fun slot member => ?_
  obtain ⟨i, counted, rfl⟩ := List.mem_map.mp member
  rw [List.mem_range] at counted
  have lt : q.slotOfAge (age - i) < q.capacity :=
    slotOfAge_lt (decoded.sound.2 (by omega)) _
  rw [List.getElem?_eq_getElem lt, Option.isSome_some]

theorem Decoded.length_read (decoded : q.Decoded) (le : age ≤ q.capacity) (inside : n ≤ age) :
    (q.read (q.slotsFrom age n)).length = n := by
  simpa [slotsFrom] using congrArg List.length (decoded.map_some_read le inside)

/-- Of the readable events, those since a later sequence number come last. -/
theorem read_suffix (q : EventQueue ε) (le : n ≤ age) :
    q.read (q.slotsFrom n n) <:+ q.read (q.slotsFrom age age) := by
  have split := q.slotsFrom_add age (age - n) n
  rw [Nat.sub_add_cancel le, Nat.sub_sub_self le] at split
  rw [split, read_append]
  exact List.suffix_append ..

/-- All readable events are the live ones and the retained ones. -/
theorem distance_zero (counted : q.count ≤ q.sequence) (fits : q.count.toNat ≤ q.capacity) :
    q.distance 0 = q.retained + q.count.toNat := by
  rw [UInt64.le_iff_toNat_le] at counted
  rw [distance, retained, UInt64.toNat_zero]
  omega

theorem distance_of_live (counted : q.count ≤ q.sequence) (fits : q.count.toNat ≤ q.capacity) :
    q.distance (q.sequence - q.count) = q.count.toNat := by
  rw [distance, UInt64.toNat_sub_of_le _ _ counted]
  rw [UInt64.le_iff_toNat_le] at counted
  omega

/-- No window of a decoded queue faults, whether the queue is full, empty, wrapped, not filled yet
or without slots. If the sequence number counts the live events too, then the processed events and
the live events are all readable events, one for each of pairwise different slots; the events since
a sequence number are the last ones of these, and the live events are the events since the number of
the consumed ones. -/
theorem windows_fit (decoded : q.Decoded) (counted : q.count ≤ q.sequence) :
    ∃ processed live, q.processed = .ok processed ∧ q.live = .ok live ∧
      q.since 0 = .ok (processed ++ live) ∧
      ((q.slotsSince 0).Nodup ∧ (q.slotsSince 0).length = min q.sequence.toNat q.capacity ∧
        (processed ++ live).map some = (q.slotsSince 0).map fun slot => q.events[slot]?) ∧
      (∀ last, ∃ events, q.since last = .ok events ∧ events <:+ processed ++ live ∧
        events.length = min (q.sequence.toNat - last.toNat) q.capacity) ∧
      q.since (q.sequence - q.count) = .ok live := by
  have all := distance_zero counted decoded.count_le
  have room : q.distance 0 ≤ q.capacity := Nat.min_le_right ..
  -- the ages of the processed events go down to those of the live ones
  have parts : q.read (q.slotsFrom (q.count.toNat + q.retained) q.retained) ++
      q.read (q.slotsFrom q.count.toNat q.count.toNat) =
        q.read (q.slotsFrom (q.distance 0) (q.distance 0)) := by
    rw [all, slotsFrom_add, read_append, Nat.add_sub_cancel_left, Nat.add_comm q.retained]
  refine ⟨_, _, decoded.processed_eq, decoded.live_eq, ?_, ⟨?_, ?_, ?_⟩, fun last => ?_, ?_⟩
  · rw [parts, decoded.since_eq]
  · rw [decoded.slotsSince_eq]
    exact latestSlots_nodup room
  · rw [slotsSince, List.length_map, List.length_range, distance, UInt64.toNat_zero, Nat.sub_zero]
  · rw [parts, decoded.slotsSince_eq]
    exact decoded.map_some_read room (Nat.le_refl _)
  · have within : q.distance last ≤ q.capacity := Nat.min_le_right ..
    have fewer : q.distance last ≤ q.distance 0 := by
      rw [distance, distance, UInt64.toNat_zero]
      omega
    refine ⟨_, decoded.since_eq last, ?_, decoded.length_read within (Nat.le_refl _)⟩
    rw [parts]
    exact read_suffix q fewer
  · rw [decoded.since_eq, distance_of_live counted decoded.count_le]

/-- In the ring of three slots the live events stand in the first two slots and a processed one in
the last. A queue without slots shows nothing of the twelve events that were pushed. -/
theorem windows_of_ring :
    let q := Tracker.ring.queue
    let empty := Tracker.slotless.queue
    (q.slotsSince 0 = [2, 0, 1] ∧
      ∃ processed live, q.processed = .ok processed ∧ q.live = .ok live ∧
        (processed ++ live).map some = [q.events[2]?, q.events[0]?, q.events[1]?] ∧
        q.since 7 = .ok live ∧ live.length = 2) ∧
      empty.sequence = 12 ∧ empty.processed = .ok [] ∧ empty.live = .ok [] ∧
        empty.since 0 = .ok [] := by
  intro q empty
  have slots : q.slotsSince 0 = [2, 0, 1] := by decide +kernel
  have none : empty.slotsSince 0 = [] := by decide +kernel
  have consumed : q.sequence - q.count = 7 := by decide +kernel
  constructor
  · obtain ⟨processed, live, first, second, -, ⟨-, -, visits⟩, since, last⟩ :=
      windows_fit Tracker.ring.decoded (by decide +kernel)
    rw [consumed] at last
    obtain ⟨events, read, -, length⟩ := since 7
    obtain rfl := Except.ok.inj (last.symm.trans read)
    refine ⟨slots, processed, live, first, second, ?_, last, ?_⟩
    · rw [visits, slots]
      rfl
    · rw [length]
      decide +kernel
  · obtain ⟨processed, live, first, second, all, ⟨-, -, visits⟩, -, -⟩ :=
      windows_fit Tracker.slotless.decoded (by decide +kernel)
    rw [none, List.map_nil, List.map_eq_nil_iff] at visits
    rw [visits] at all
    obtain ⟨rfl, rfl⟩ := List.append_eq_nil_iff.mp visits
    exact ⟨by decide +kernel, first, second, all⟩

end PerpDex.EventQueue
