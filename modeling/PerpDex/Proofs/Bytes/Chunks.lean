import PerpDex.Proofs.Bytes.Fields

/-! Records of one size, one behind the other. They are read in order, and the first that cannot be
read is what the whole fails with. -/
namespace PerpDex

section Traversal

variable {α β ε : Type} {f : α → Except ε β} {l : List α}

theorem mapM_eq_ok_iff {results : List β} :
    l.mapM f = .ok results ↔ l.map f = results.map .ok := by
  induction l generalizing results with
  | nil => cases results <;> simp [pure, Except.pure]
  | cons a rest ih =>
    rw [List.mapM_cons]
    cases head : f a with
    | error e => cases results <;> simp [bind, Except.bind, head]
    | ok b =>
      cases tail : rest.mapM f with
      | error e => cases results <;> simp [bind, Except.bind, head, ← ih, tail]
      | ok bs => cases results <;> simp [bind, Except.bind, pure, Except.pure, head, ← ih, tail]

theorem exists_mapM_eq_ok (each : ∀ a ∈ l, ∃ b, f a = .ok b) :
    ∃ results, l.mapM f = .ok results := by
  induction l with
  | nil => exact ⟨[], rfl⟩
  | cons a rest ih =>
    obtain ⟨b, head⟩ := each a List.mem_cons_self
    obtain ⟨bs, tail⟩ := ih fun a member => each a (List.mem_cons_of_mem _ member)
    exact ⟨b :: bs, by rw [List.mapM_cons, head, tail]; rfl⟩

theorem mapM_append_eq_error {before after : List α} {a : α} {e : ε} (failed : f a = .error e)
    (fine : ∀ b ∈ before, ∃ r, f b = .ok r) : (before ++ a :: after).mapM f = .error e := by
  induction before with
  | nil =>
    rw [List.nil_append, List.mapM_cons, failed]
    rfl
  | cons head before ih =>
    obtain ⟨r, read⟩ := fine head List.mem_cons_self
    rw [List.cons_append, List.mapM_cons, read,
      ih fun b member => fine b (List.mem_cons_of_mem _ member)]
    rfl

theorem split_of_mapM_eq_error {e : ε} (failed : l.mapM f = .error e) :
    ∃ before a after, l = before ++ a :: after ∧ f a = .error e ∧
      ∀ b ∈ before, ∃ r, f b = .ok r := by
  induction l with
  | nil => cases failed
  | cons head rest ih =>
    rw [List.mapM_cons] at failed
    cases first : f head with
    | error e' =>
      rw [first] at failed
      obtain rfl := Except.error.inj failed
      exact ⟨[], head, rest, rfl, first, by simp⟩
    | ok b =>
      cases tail : rest.mapM f with
      | ok bs =>
        rw [first, tail] at failed
        cases failed
      | error e' =>
        rw [first, tail] at failed
        obtain rfl := Except.error.inj failed
        obtain ⟨before, a, after, rfl, refused, fine⟩ := ih tail
        exact ⟨head :: before, a, after, rfl, refused,
          List.forall_mem_cons.mpr ⟨⟨b, first⟩, fine⟩⟩

/-- The first failure is the failure of the whole. -/
theorem mapM_eq_error_iff {e : ε} :
    l.mapM f = .error e ↔
      ∃ before a after, l = before ++ a :: after ∧ f a = .error e ∧
        ∀ b ∈ before, ∃ r, f b = .ok r := by
  constructor
  · exact split_of_mapM_eq_error
  · rintro ⟨before, a, after, rfl, failed, fine⟩
    exact mapM_append_eq_error failed fine

theorem mapM_eq_error {i : Nat} {a : α} {e : ε} (at_i : l[i]? = some a) (failed : f a = .error e)
    (before : ∀ j < i, ∀ a, l[j]? = some a → ∃ b, f a = .ok b) : l.mapM f = .error e := by
  obtain ⟨inside, rfl⟩ := List.getElem?_eq_some_iff.mp at_i
  refine mapM_eq_error_iff.mpr ⟨l.take i, l[i], l.drop (i + 1), ?_, failed, fun b member => ?_⟩
  · rw [List.getElem_cons_drop, List.take_append_drop]
  · obtain ⟨j, below, rfl⟩ := List.mem_take_iff_getElem.mp member
    exact before j (by omega) _ (List.getElem?_eq_getElem (by omega))

theorem exists_of_mapM_eq_error {e : ε} (failed : l.mapM f = .error e) :
    ∃ a ∈ l, f a = .error e := by
  obtain ⟨before, a, after, rfl, refused, -⟩ := mapM_eq_error_iff.mp failed
  exact ⟨a, by simp, refused⟩

end Traversal

namespace Bytes

variable {α β ε : Type} {data : Bytes} {size count i : Nat}

theorem length_chunks (size count : Nat) (data : Bytes) :
    (chunks size count data).length = count := by
  induction count generalizing data with
  | zero => rfl
  | succ count ih => rw [chunks, List.length_cons, ih]

theorem getElem?_chunks (size : Nat) {count i : Nat} (data : Bytes) (inside : i < count) :
    (chunks size count data)[i]? = some (slice data (size * i) size) := by
  induction count generalizing data i with
  | zero => exact absurd inside (Nat.not_lt_zero i)
  | succ count ih =>
    cases i with
    | zero => rfl
    | succ i =>
      rw [chunks, List.getElem?_cons_succ, ih (data.drop size) (Nat.lt_of_succ_lt_succ inside)]
      rw [slice, slice, List.drop_drop, Nat.mul_succ, Nat.add_comm]

theorem length_of_mem_chunks {slot : Bytes} (whole : size * count ≤ data.length)
    (member : slot ∈ chunks size count data) : slot.length = size := by
  induction count generalizing data with
  | zero => cases member
  | succ count ih =>
    rw [Nat.mul_succ] at whole
    rw [chunks, List.mem_cons] at member
    rcases member with rfl | later
    · rw [List.length_take]
      omega
    · exact ih (by rw [List.length_drop]; omega) later

theorem chunks_flatMap {write : α → Bytes} (length : ∀ a, (write a).length = size) (l : List α) :
    chunks size l.length (l.flatMap write) = l.map write := by
  induction l with
  | nil => rfl
  | cons a rest ih =>
    rw [List.length_cons, chunks, List.flatMap_cons, List.take_left' (length a),
      List.drop_left' (length a), ih, List.map_cons]

theorem length_flatMap_of_length {write : α → Bytes} (length : ∀ a, (write a).length = size)
    (l : List α) : (l.flatMap write).length = size * l.length := by
  induction l with
  | nil => rfl
  | cons a rest ih =>
    rw [List.flatMap_cons, List.length_append, length a, ih, List.length_cons, Nat.mul_succ,
      Nat.add_comm]

/-- The window of a record among records. -/
theorem slice_flatMap {write : α → Bytes} (length : ∀ a, (write a).length = size) {l : List α}
    {a : α} (at_i : l[i]? = some a) : slice (l.flatMap write) (size * i) size = write a := by
  have inside : i < l.length := (List.getElem?_eq_some_iff.mp at_i).1
  have window := getElem?_chunks size (l.flatMap write) inside
  rw [chunks_flatMap length, List.getElem?_map, at_i] at window
  exact (Option.some.inj window).symm

variable {f : Bytes → Except ε β}

theorem mapM_chunks_eq_ok_iff {results : List β} :
    (chunks size count data).mapM f = .ok results ↔
      results.length = count ∧ ∀ i < count, ∃ b, results[i]? = some b ∧
        f (slice data (size * i) size) = .ok b := by
  rw [mapM_eq_ok_iff]
  constructor
  · intro same
    have length : results.length = count := by
      simpa [length_chunks] using (congrArg List.length same).symm
    refine ⟨length, fun i inside => ?_⟩
    have at_i := congrArg (·[i]?) same
    simp only [List.getElem?_map, getElem?_chunks size data inside] at at_i
    obtain ⟨b, at_i, read⟩ := Option.map_eq_some_iff.mp at_i.symm
    exact ⟨b, at_i, read.symm⟩
  · rintro ⟨length, each⟩
    refine List.ext_getElem? fun i => ?_
    by_cases inside : i < count
    · obtain ⟨b, at_i, read⟩ := each i inside
      rw [List.getElem?_map, List.getElem?_map, getElem?_chunks size data inside, at_i]
      exact congrArg some read
    · rw [List.getElem?_eq_none (by simp [length_chunks]; omega),
        List.getElem?_eq_none (by simp; omega)]

theorem exists_mapM_chunks_iff :
    (∃ results, (chunks size count data).mapM f = .ok results) ↔
      ∀ i < count, ∃ b, f (slice data (size * i) size) = .ok b := by
  constructor
  · rintro ⟨results, read⟩ i inside
    obtain ⟨b, -, read⟩ := (mapM_chunks_eq_ok_iff.mp read).2 i inside
    exact ⟨b, read⟩
  · intro each
    refine exists_mapM_eq_ok fun piece member => ?_
    obtain ⟨i, at_i⟩ := List.mem_iff_getElem?.mp member
    have inside : i < count := by
      simpa [length_chunks] using (List.getElem?_eq_some_iff.mp at_i).1
    rw [getElem?_chunks size data inside] at at_i
    exact Option.some.inj at_i ▸ each i inside

theorem mapM_chunks_eq_error {e : ε} (inside : i < count)
    (failed : f (slice data (size * i) size) = .error e)
    (before : ∀ j < i, ∃ b, f (slice data (size * j) size) = .ok b) :
    (chunks size count data).mapM f = .error e := by
  refine mapM_eq_error (getElem?_chunks size data inside) failed fun j less piece at_j => ?_
  rw [getElem?_chunks size data (Nat.lt_trans less inside)] at at_j
  exact Option.some.inj at_j ▸ before j less

theorem exists_of_mapM_chunks_eq_error {e : ε}
    (failed : (chunks size count data).mapM f = .error e) :
    ∃ i < count, f (slice data (size * i) size) = .error e := by
  obtain ⟨piece, member, refused⟩ := exists_of_mapM_eq_error failed
  obtain ⟨i, at_i⟩ := List.mem_iff_getElem?.mp member
  have inside : i < count := by
    simpa [length_chunks] using (List.getElem?_eq_some_iff.mp at_i).1
  rw [getElem?_chunks size data inside] at at_i
  exact ⟨i, inside, Option.some.inj at_i ▸ refused⟩

end Bytes
end PerpDex
