import PerpDex.Proofs.Queue.Slots
import PerpDex.Proofs.Bytes.Chunks
import PerpDex.Queue.Account

/-! Which bytes are an event queue, and what such a queue holds. Length, header and number of live
events decide; the bytes of the slots do not. The raw head may be any number, since it is reduced to
a slot before slots are counted on from it. -/
namespace PerpDex

namespace EventQueue

variable {ε : Type} {size n : Nat} {body : Bytes}

/-- The head as the header gives it, reduced or not. -/
def rawHead (body : Bytes) : UInt64 := Bytes.u64At body 8

def rawCount (body : Bytes) : UInt64 := Bytes.u64At body 16

def chunk (size : Nat) (body : Bytes) (i : Nat) : Bytes :=
  Bytes.slice body (headerSize + size * i) size

/-- A header that counts no more live events than there are slots, and `n` slots of `size` bytes. -/
structure Shaped (size n : Nat) (body : Bytes) : Prop where
  length_eq : body.length = headerSize + size * n
  count_le : (rawCount body).toNat ≤ n

def ofSlots (size n : Nat) (read : Nat → Bytes → ε) (body : Bytes) : EventQueue ε where
  head := if n = 0 then 0 else UInt64.ofNat ((rawHead body).toNat % n)
  count := rawCount body
  sequence := Bytes.u64At body 24
  events := (Bytes.chunks size n (body.drop headerSize)).mapIdx read

theorem Shaped.slots_eq (shaped : Shaped size n body) (pos : 0 < size) :
    (body.length - headerSize) / size = n := by
  rw [shaped.length_eq, Nat.add_sub_cancel_left, Nat.mul_div_cancel_left n pos]

theorem Shaped.eq_of_length {m : Nat} (shaped : Shaped size m body) (pos : 0 < size)
    (length : body.length = headerSize + size * n) : m = n := by
  have same := shaped.length_eq.symm.trans length
  exact Nat.eq_of_mul_eq_mul_left pos (Nat.add_left_cancel same)

/-- The decoder accepts every slot of the right size, and `read` tells what it makes of it. -/
def Total (size : Nat) (decode : Nat → Bytes → Except Error ε) (read : Nat → Bytes → ε) : Prop :=
  ∀ i data, data.length = size → decode i data = .ok (read i data)

/-- No slot is refused. -/
theorem Total.mapM_slots {decode : Nat → Bytes → Except Error ε} {read : Nat → Bytes → ε}
    (total : Total size decode read) {slots : List Bytes} (whole : ∀ slot ∈ slots, slot.length = size) :
    slots.zipIdx.mapM (fun (slot, i) => decode i slot) = .ok (slots.mapIdx read) := by
  rw [mapM_eq_ok_iff, List.mapIdx_eq_zipIdx_map, List.map_map]
  refine List.map_congr_left fun (slot, i) member => ?_
  exact total i slot (whole slot (List.fst_mem_of_mem_zipIdx member))

/-- What is looked at, in this order: the length, the header, the number of live events. Slots have
their size if the data have a size that fits, and are not refused then. -/
theorem decodeRing_eq (layout : String) {size : Nat} (checkHeader : Header → Except Error Unit)
    {decode : Nat → Bytes → Except Error ε} {read : Nat → Bytes → ε} (total : Total size decode read)
    (body : Bytes) :
    decodeRing layout size checkHeader decode body =
      let n := (body.length - headerSize) / size
      if body.length ≠ headerSize + n * size then
        .error (.sizeMismatch layout (headerSize + n * size) body.length)
      else
        (checkHeader (Header.read body)).bind fun _ =>
          if n < (rawCount body).toNat then .error (.overfullQueue (rawCount body) n)
          else .ok (ofSlots size n read body) := by
  unfold decodeRing
  dsimp only
  split
  · rfl
  · rename_i whole
    have room : size * ((body.length - headerSize) / size) ≤ (body.drop headerSize).length := by
      rw [not_not, Nat.mul_comm] at whole
      rw [List.length_drop]
      omega
    have slots := total.mapM_slots fun slot member => Bytes.length_of_mem_chunks room member
    cases checkHeader (Header.read body) with
    | error e => rfl
    | ok _ =>
      change (if _ < (rawCount body).toNat then _ else _) =
        if _ < (rawCount body).toNat then _ else _
      split
      · rfl
      · simp only [slots]
        rfl

/-- A body is refused unless it has the shape and the header passes. -/
theorem decodeRing_eq_ok_iff (layout : String) (pos : 0 < size)
    (checkHeader : Header → Except Error Unit) {decode : Nat → Bytes → Except Error ε}
    {read : Nat → Bytes → ε} (total : Total size decode read) (q : EventQueue ε) :
    decodeRing layout size checkHeader decode body = .ok q ↔
      ∃ n, Shaped size n body ∧ checkHeader (Header.read body) = .ok () ∧
        q = ofSlots size n read body := by
  rw [decodeRing_eq layout checkHeader total]
  constructor
  · intro decoded
    dsimp only at decoded
    split at decoded
    · cases decoded
    · rename_i whole
      cases checked : checkHeader (Header.read body) with
      | error e => simp [checked, Except.bind] at decoded
      | ok _ =>
        simp only [checked, Except.bind] at decoded
        split at decoded
        · cases decoded
        · rename_i fits
          refine ⟨_, ⟨?_, Nat.not_lt.mp fits⟩, rfl, (Except.ok.inj decoded).symm⟩
          rw [Nat.mul_comm]
          exact Classical.not_not.mp whole
  · rintro ⟨n, shaped, checked, rfl⟩
    have whole : ¬body.length ≠ headerSize + n * size := by
      rw [shaped.length_eq, Nat.mul_comm, not_not]
    have fits : ¬n < (rawCount body).toNat := Nat.not_lt.mpr shaped.count_le
    simp only [shaped.slots_eq pos, if_neg whole, checked, Except.bind, if_neg fits]

/-- Slot by slot, the queue is what `decode` gives for the chunks of the body, and its live events
are those of the slots counted on from the raw head. No body in memory has `2 ^ 64` bytes. -/
structure Shows (size n : Nat) (decode : Nat → Bytes → Except Error ε) (slot : ε → Nat)
    (body : Bytes) (q : EventQueue ε) : Prop where
  capacity_eq : q.capacity = n
  count_eq : q.count = rawCount body
  sequence_eq : q.sequence = Bytes.u64At body 24
  slots : ∀ i < n, ∃ event, q.events[i]? = some event ∧
    decode i (chunk size body i) = .ok event ∧ slot event = i
  live : body.length < 2 ^ 64 → ∃ events, q.live = .ok events ∧
    events.map some = (List.range (rawCount body).toNat).map
      fun i => q.events[((rawHead body).toNat + i) % n]?

theorem capacity_ofSlots (size n : Nat) (read : Nat → Bytes → ε) (body : Bytes) :
    (ofSlots size n read body).capacity = n := by
  rw [capacity, ofSlots, List.length_mapIdx, Bytes.length_chunks]

theorem getElem?_ofSlots (read : Nat → Bytes → ε) (body : Bytes) {i : Nat} (inside : i < n) :
    (ofSlots size n read body).events[i]? = some (read i (chunk size body i)) := by
  rw [ofSlots, List.getElem?_mapIdx, Bytes.getElem?_chunks size _ inside]
  rw [Bytes.slice, List.drop_drop, chunk, Bytes.slice]
  rfl

theorem Shaped.length_chunk (shaped : Shaped size n body) {i : Nat} (inside : i < n) :
    (chunk size body i).length = size := by
  have room : size * i + size ≤ size * n := by
    rw [← Nat.mul_succ]
    exact Nat.mul_le_mul_left size inside
  rw [chunk, Bytes.length_slice, shaped.length_eq]
  omega

theorem toNat_head_ofSlots (some : n ≠ 0) {read : Nat → Bytes → ε} :
    (ofSlots size n read body).head.toNat = (rawHead body).toNat % n := by
  have inside := (rawHead body).toNat_lt
  have le := Nat.mod_le (rawHead body).toNat n
  rw [ofSlots, if_neg some, UInt64.toNat_ofNat']
  exact Nat.mod_eq_of_lt (by omega)

/-- Reducing the raw head first changes no slot that is counted on from it. -/
theorem slotOf_ofSlots (short : 2 * n ≤ 2 ^ 64) (read : Nat → Bytes → ε) (body : Bytes) {i : Nat}
    (inside : i < n) :
    (ofSlots size n read body).slotOf i = ((rawHead body).toNat + i) % n := by
  have reduced := Nat.mod_lt (rawHead body).toNat (Nat.zero_lt_of_lt inside)
  rw [slotOf, toNat_head_ofSlots (Nat.ne_zero_of_lt inside), capacity_ofSlots,
    Nat.mod_eq_of_lt (b := 2 ^ 64) (by omega), Nat.mod_add_mod]

theorem live_ofSlots (shaped : Shaped size n body) (short : 2 * n ≤ 2 ^ 64)
    (read : Nat → Bytes → ε) :
    ∃ events, (ofSlots size n read body).live = .ok events ∧
      events.map some = (List.range (rawCount body).toNat).map
        fun i => (ofSlots size n read body).events[((rawHead body).toNat + i) % n]? := by
  have le := shaped.count_le
  have lookups : ((List.range (rawCount body).toNat).map fun i =>
      (ofSlots size n read body).events[(ofSlots size n read body).slotOf (0 + i)]?) =
        (List.range (rawCount body).toNat).map
          fun i => (ofSlots size n read body).events[((rawHead body).toNat + i) % n]? := by
    refine List.map_congr_left fun i member => ?_
    have inside := List.mem_range.mp member
    rw [Nat.zero_add, slotOf_ofSlots short read body (by omega)]
  by_cases none : (rawCount body).toNat = 0
  · exact ⟨[], by rw [live, window]; exact if_pos none, by rw [none]; rfl⟩
  · have some : (ofSlots size n read body).capacity ≠ 0 := by
      rw [capacity_ofSlots]
      omega
    refine ⟨_, by rw [live, window]; exact (if_neg none).trans (if_neg some), ?_⟩
    refine (map_some_filterMap fun i member => ?_).trans lookups
    have inside : i < (rawCount body).toNat := List.mem_range.mp member
    rw [Nat.zero_add, slotOf_ofSlots short read body (by omega),
      getElem?_ofSlots read body (Nat.mod_lt _ (by omega))]
    rfl

theorem shows_ofSlots (shaped : Shaped size n body) (pos : 1 < size)
    {decode : Nat → Bytes → Except Error ε} {read : Nat → Bytes → ε} (total : Total size decode read)
    {slot : ε → Nat} (slot_read : ∀ i data, slot (read i data) = i) :
    Shows size n decode slot body (ofSlots size n read body) where
  capacity_eq := capacity_ofSlots size n read body
  count_eq := rfl
  sequence_eq := rfl
  slots i inside := ⟨_, getElem?_ofSlots read body inside,
    total i _ (shaped.length_chunk inside), slot_read i _⟩
  live short := by
    have slots : 2 * n ≤ size * n := Nat.mul_le_mul_right n pos
    have whole := shaped.length_eq
    exact live_ofSlots shaped (by omega) read

end EventQueue

theorem PerpEvent.slot_read (i : Nat) (data : Bytes) : (read i data).slot = i := by
  unfold read
  split <;> rfl

theorem SpotEvent.slot_read (i : Nat) (data : Bytes) : (read i data).slot = i := by
  unfold read
  dsimp only
  split
  · rfl
  · split <;> rfl

theorem PerpEvent.total : EventQueue.Total size decode read := by
  intro i data whole
  rw [decode, checkSize, if_pos whole]
  rfl

theorem SpotEvent.total : EventQueue.Total size decode read := by
  intro i data whole
  rw [decode, checkSize, if_pos whole]
  rfl

theorem Header.check_eq_ok_iff (header : Header) (kind : AccountKind) {u : Unit} :
    header.check kind = .ok u ↔ header.kindByte = kind.toByte := by
  unfold check
  split <;> simp_all

theorem Framing.unwrap_eq_ok_iff (data body : Bytes) :
    unwrap data = .ok body ↔ data = wrap body := by
  constructor
  · intro framed
    unfold unwrap at framed
    dsimp only at framed
    split at framed
    · cases framed
    · rename_i long
      split at framed
      · cases framed
      · rename_i starts
        split at framed
        · cases framed
        · rename_i ends
          obtain rfl := Except.ok.inj framed
          rw [not_not] at starts ends
          have behind : head.length + (data.length - (head.length + tail.length)) =
              data.length - tail.length := by
            omega
          calc data = data.take head.length ++ data.drop head.length :=
                (List.take_append_drop ..).symm
            _ = head ++ ((data.drop head.length).take (data.length - (head.length + tail.length)) ++
                  (data.drop head.length).drop (data.length - (head.length + tail.length))) := by
                rw [starts, List.take_append_drop]
            _ = wrap _ := by rw [List.drop_drop, behind, ends, wrap, List.append_assoc]
  · rintro rfl
    exact unwrap_wrap body

namespace EventQueue

theorem perp_decode_eq_ok_iff (data : Bytes) (q : PerpEventQueue) :
    PerpEventQueue.decode data = .ok q ↔
      ∃ n, Shaped 200 n data ∧ Bytes.u8At data 0 = AccountKind.eventQueue.toByte ∧
        q = ofSlots 200 n PerpEvent.read data := by
  rw [PerpEventQueue.decode, decodeRing_eq_ok_iff _ (by decide) _ PerpEvent.total]
  exact exists_congr fun n => and_congr_right fun _ => and_congr_left fun _ =>
    Header.check_eq_ok_iff _ _

theorem spot_decode_eq_ok_iff (data : Bytes) (q : SpotEventQueue) :
    SpotEventQueue.decode data = .ok q ↔
      ∃ body n, data = Framing.wrap body ∧ Shaped 88 n body ∧
        q = ofSlots 88 n SpotEvent.read body := by
  constructor
  · intro decoded
    unfold SpotEventQueue.decode at decoded
    cases framed : Framing.unwrap data with
    | error e => simp [framed, bind, Except.bind] at decoded
    | ok body =>
      simp only [framed, bind, Except.bind] at decoded
      obtain ⟨n, shaped, -, rfl⟩ := (decodeRing_eq_ok_iff _ (by decide) _ SpotEvent.total _).mp decoded
      exact ⟨body, n, (Framing.unwrap_eq_ok_iff data body).mp framed, shaped, rfl⟩
  · rintro ⟨body, n, rfl, shaped, rfl⟩
    rw [SpotEventQueue.decode, Framing.unwrap_wrap]
    exact (decodeRing_eq_ok_iff _ (by decide) (fun _ => .ok ()) SpotEvent.total _).mpr
      ⟨n, shaped, rfl, rfl⟩

/-- Of bytes of a perp market exactly those are an event queue that consist of a header of 32 bytes
which names the kind, and of slots of 200 bytes that are at least as many as the header counts live
events; of bytes of a spot market those with a frame around a header and slots of 88 bytes. Whatever
the slots hold, the queue has the event of each of them at its place, and the live events are found
by counting slots on from the raw head. -/
theorem decode_iff_shaped (data : Bytes) :
    ((∃ q, PerpEventQueue.decode data = .ok q) ↔
        ∃ n, data.length = 32 + 200 * n ∧ Bytes.u8At data 0 = AccountKind.eventQueue.toByte ∧
          (rawCount data).toNat ≤ n) ∧
      (∀ q n, PerpEventQueue.decode data = .ok q → data.length = 32 + 200 * n →
        Shows 200 n PerpEvent.decode PerpEvent.slot data q) ∧
      ((∃ q, SpotEventQueue.decode data = .ok q) ↔
        ∃ body n, data = Framing.head ++ body ++ Framing.tail ∧ body.length = 32 + 88 * n ∧
          (rawCount body).toNat ≤ n) ∧
      ∀ q body n, SpotEventQueue.decode data = .ok q →
        data = Framing.head ++ body ++ Framing.tail → body.length = 32 + 88 * n →
          Shows 88 n SpotEvent.decode SpotEvent.slot body q := by
  refine ⟨⟨?_, ?_⟩, ?_, ⟨?_, ?_⟩, ?_⟩
  · rintro ⟨q, decoded⟩
    obtain ⟨n, shaped, kind, -⟩ := (perp_decode_eq_ok_iff data q).mp decoded
    exact ⟨n, shaped.length_eq, kind, shaped.count_le⟩
  · rintro ⟨n, length, kind, count⟩
    exact ⟨_, (perp_decode_eq_ok_iff data _).mpr ⟨n, ⟨length, count⟩, kind, rfl⟩⟩
  · intro q n decoded length
    obtain ⟨m, shaped, -, rfl⟩ := (perp_decode_eq_ok_iff data q).mp decoded
    obtain rfl := shaped.eq_of_length (by decide) length
    exact shows_ofSlots shaped (by decide) PerpEvent.total PerpEvent.slot_read
  · rintro ⟨q, decoded⟩
    obtain ⟨body, n, framed, shaped, -⟩ := (spot_decode_eq_ok_iff data q).mp decoded
    exact ⟨body, n, framed, shaped.length_eq, shaped.count_le⟩
  · rintro ⟨body, n, framed, length, count⟩
    exact ⟨_, (spot_decode_eq_ok_iff data _).mpr ⟨body, n, framed, ⟨length, count⟩, rfl⟩⟩
  · intro q body n decoded framed length
    obtain ⟨other, m, framed', shaped, rfl⟩ := (spot_decode_eq_ok_iff data q).mp decoded
    obtain rfl : other = body := by
      simpa [Framing.wrap] using framed'.symm.trans framed
    obtain rfl := shaped.eq_of_length (by decide) length
    exact shows_ofSlots shaped (by decide) SpotEvent.total SpotEvent.slot_read

def greatestHead : Bytes :=
  List.replicate 8 0 ++ Bytes.ofU64 (-1) ++ Bytes.ofU64 2 ++ Bytes.ofU64 9 ++
    (1 :: List.replicate 87 7) ++ (2 :: List.replicate 87 0) ++ List.replicate 88 255

def withoutSlots : Bytes :=
  AccountKind.eventQueue.toByte :: List.replicate 7 0 ++ Bytes.ofU64 (-1) ++ Bytes.ofU64 0 ++
    Bytes.ofU64 9

/-- The live events of the queue of spot events are those of its first two slots, since three divides
`2 ^ 64 - 1`. The queue of perp events has no slots to look at. -/
theorem decode_greatestHead :
    let data := Framing.head ++ greatestHead ++ Framing.tail
    (greatestHead.length = 32 + 88 * 3 ∧ (rawHead greatestHead).toNat = 2 ^ 64 - 1 ∧
      ∃ q, SpotEventQueue.decode data = .ok q ∧ q.capacity = 3 ∧
        ∃ events, q.live = .ok events ∧ events.map some = [q.events[0]?, q.events[1]?]) ∧
      (rawHead withoutSlots).toNat = 2 ^ 64 - 1 ∧
      ∃ q, PerpEventQueue.decode withoutSlots = .ok q ∧ q.capacity = 0 ∧ q.live = .ok [] := by
  intro data
  constructor
  · have length : greatestHead.length = 32 + 88 * 3 := by decide +kernel
    have head : (rawHead greatestHead).toNat = 2 ^ 64 - 1 := by decide +kernel
    have count : (rawCount greatestHead).toNat = 2 := by decide +kernel
    obtain ⟨-, -, accepted, shown⟩ := decode_iff_shaped data
    obtain ⟨q, decoded⟩ := accepted.mpr ⟨greatestHead, 3, rfl, length, by rw [count]; decide⟩
    have shows := shown q greatestHead 3 decoded rfl length
    obtain ⟨events, live, slots⟩ := shows.live (by rw [length]; decide)
    rw [count, head] at slots
    exact ⟨length, head, q, decoded, shows.capacity_eq, events, live, slots⟩
  · have head : (rawHead withoutSlots).toNat = 2 ^ 64 - 1 := by decide +kernel
    have count : (rawCount withoutSlots).toNat = 0 := by decide +kernel
    obtain ⟨accepted, shown, -, -⟩ := decode_iff_shaped withoutSlots
    obtain ⟨q, decoded⟩ := accepted.mpr ⟨0, rfl, by decide +kernel, Nat.le_of_eq count⟩
    have shows := shown q 0 decoded rfl
    obtain ⟨events, live, slots⟩ := shows.live (by decide +kernel)
    rw [count] at slots
    obtain rfl := List.map_eq_nil_iff.mp slots
    exact ⟨head, q, decoded, shows.capacity_eq, live⟩

end EventQueue
end PerpDex
