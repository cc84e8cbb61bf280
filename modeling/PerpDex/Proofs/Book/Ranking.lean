import PerpDex.Book.Tree

/-! The orders a tree is built from: of each key the order that comes first in the list, by ascending
key. Sorting first and dropping repeats afterwards gives the same, because sorting is stable. -/
namespace PerpDex

def firstOfEachKey : List Leaf → List Leaf
  | [] => []
  | l :: rest => l :: (firstOfEachKey rest).filter fun other => other.orderId ≠ l.orderId

def ranking (leaves : List Leaf) : List Leaf :=
  (firstOfEachKey leaves).mergeSort fun a b => a.orderId ≤ b.orderId

variable {leaves : List Leaf} {l : Leaf} {key : BitVec 128}

theorem mem_firstOfEachKey :
    l ∈ firstOfEachKey leaves ↔ leaves.find? (fun other => other.orderId = l.orderId) = some l := by
  induction leaves with
  | nil => simp [firstOfEachKey]
  | cons head rest ih =>
    rw [firstOfEachKey, List.mem_cons, List.mem_filter, ih]
    by_cases same : head.orderId = l.orderId
    · simp [same, eq_comm]
    · have different : l ≠ head := by
        rintro rfl
        exact same rfl
      simp [same, different, Ne.symm same]

theorem firstOfEachKey_distinct (leaves : List Leaf) :
    (firstOfEachKey leaves).Pairwise fun a b => a.orderId ≠ b.orderId := by
  induction leaves with
  | nil => exact .nil
  | cons head rest ih =>
    refine List.pairwise_cons.mpr ⟨fun other member => ?_, ih.filter _⟩
    have kept := (List.mem_filter.mp member).2
    exact Ne.symm (of_decide_eq_true kept)

theorem orderId_le_trans (a b c : Leaf) (first : decide (a.orderId ≤ b.orderId) = true)
    (second : decide (b.orderId ≤ c.orderId) = true) : decide (a.orderId ≤ c.orderId) = true := by
  rw [decide_eq_true_eq] at first second ⊢
  exact BitVec.le_trans first second

theorem orderId_le_total (a b : Leaf) :
    (decide (a.orderId ≤ b.orderId) || decide (b.orderId ≤ a.orderId)) = true := by
  rw [Bool.or_eq_true, decide_eq_true_eq, decide_eq_true_eq]
  exact BitVec.le_total ..

theorem sorted_mergeSort (leaves : List Leaf) :
    (leaves.mergeSort fun a b => a.orderId ≤ b.orderId).Pairwise
      fun a b => a.orderId ≤ b.orderId := by
  have sorted := List.pairwise_mergeSort orderId_le_trans orderId_le_total leaves
  exact sorted.imp fun le => of_decide_eq_true le

/-- Sorting keeps the order among elements that stand in order already. -/
theorem filter_mergeSort {α : Type} {le : α → α → Bool} {p : α → Bool} {list : List α}
    (trans : ∀ a b c, le a b = true → le b c = true → le a c = true)
    (total : ∀ a b, (le a b || le b a) = true)
    (level : (list.filter p).Pairwise fun a b => le a b = true) :
    (list.mergeSort le).filter p = list.filter p := by
  have kept := (List.sublist_mergeSort trans total level List.filter_sublist).filter p
  rw [List.filter_filter] at kept
  have count := ((List.mergeSort_perm list le).filter p).length_eq
  refine (List.Sublist.eq_of_length ?_ count.symm).symm
  simpa using kept

theorem find?_mergeSort (leaves : List Leaf) (key : BitVec 128) :
    (leaves.mergeSort fun a b => a.orderId ≤ b.orderId).find? (fun l => l.orderId = key) =
      leaves.find? fun l => l.orderId = key := by
  have level : (leaves.filter fun l => l.orderId = key).Pairwise
      fun a b => decide (a.orderId ≤ b.orderId) = true := by
    refine List.pairwise_of_forall_mem_list fun a inA b inB => ?_
    have atA := of_decide_eq_true (List.mem_filter.mp inA).2
    have atB := of_decide_eq_true (List.mem_filter.mp inB).2
    exact decide_eq_true (BitVec.le_of_eq (atA.trans atB.symm))
  rw [← List.head?_filter, ← List.head?_filter,
    filter_mergeSort orderId_le_trans orderId_le_total level]

/-- Behind `previous`, which no key is less than, what is kept is the first order of each other
key. -/
theorem mem_dropRepeats (sorted : leaves.Pairwise fun a b => a.orderId ≤ b.orderId)
    {previous : Option (BitVec 128)} (least : ∀ k, previous = some k → ∀ l ∈ leaves, k ≤ l.orderId) :
    l ∈ dropRepeats previous leaves ↔ previous ≠ some l.orderId ∧
      leaves.find? (fun other => other.orderId = l.orderId) = some l := by
  induction sorted generalizing previous with
  | nil => simp [dropRepeats]
  | @cons head rest less _ ih =>
    rw [dropRepeats]
    by_cases repeated : previous = some head.orderId
    · have later := ih fun k eq other member => least k eq other (List.mem_cons_of_mem _ member)
      rw [if_pos repeated, later]
      refine and_congr_right fun other => ?_
      have different : head.orderId ≠ l.orderId := fun same => other (same ▸ repeated)
      simp [different]
    · have fromHead : ∀ k, some head.orderId = some k → ∀ other ∈ rest, k ≤ other.orderId := by
        intro k eq other member
        cases eq
        exact less other member
      have later := ih fromHead
      rw [if_neg repeated, List.mem_cons, later]
      by_cases same : head.orderId = l.orderId
      · have new : previous ≠ some l.orderId := same ▸ repeated
        simp [same, new, eq_comm]
      · have differs : l ≠ head := by
          rintro rfl
          exact same rfl
        have behind : rest.find? (fun other => other.orderId = l.orderId) = some l →
            previous ≠ some l.orderId := by
          intro found taken
          have below := least l.orderId taken head List.mem_cons_self
          have above := less l (List.mem_of_find?_eq_some found)
          exact same (BitVec.le_antisymm above below)
        simpa [same, differs] using behind

theorem sorted_dropRepeats (sorted : leaves.Pairwise fun a b => a.orderId ≤ b.orderId)
    {previous : Option (BitVec 128)} (least : ∀ k, previous = some k → ∀ l ∈ leaves, k ≤ l.orderId) :
    (dropRepeats previous leaves).Pairwise fun a b => a.orderId < b.orderId := by
  induction sorted generalizing previous with
  | nil => exact .nil
  | @cons head rest less ordered ih =>
    have fromHead : ∀ k, some head.orderId = some k → ∀ l ∈ rest, k ≤ l.orderId := by
      intro k eq l member
      cases eq
      exact less l member
    rw [dropRepeats]
    split
    · exact ih fun k eq l member => least k eq l (List.mem_cons_of_mem _ member)
    · refine List.pairwise_cons.mpr ⟨fun l member => ?_, ih fromHead⟩
      obtain ⟨different, found⟩ := (mem_dropRepeats ordered fromHead).mp member
      have le := less l (List.mem_of_find?_eq_some found)
      exact BitVec.lt_of_le_ne le fun same => different (congrArg some same)

theorem sorted_ranked (leaves : List Leaf) :
    (ranked leaves).Pairwise fun a b => a.orderId < b.orderId :=
  sorted_dropRepeats (sorted_mergeSort leaves) (by simp)

theorem sorted_ranking (leaves : List Leaf) :
    (ranking leaves).Pairwise fun a b => a.orderId < b.orderId := by
  have different : (ranking leaves).Pairwise fun a b => a.orderId ≠ b.orderId :=
    ((List.mergeSort_perm (firstOfEachKey leaves) _).pairwise_iff Ne.symm).mpr
      (firstOfEachKey_distinct leaves)
  refine ((sorted_mergeSort (firstOfEachKey leaves)).and different).imp ?_
  rintro a b ⟨le, ne⟩
  exact BitVec.lt_of_le_ne le ne

/-- The keys of the orders determine how they are ranked. -/
theorem eq_of_sorted {first second : List Leaf} (perm : first.Perm second)
    (sortedFirst : first.Pairwise fun a b => a.orderId < b.orderId)
    (sortedSecond : second.Pairwise fun a b => a.orderId < b.orderId) : first = second := by
  refine perm.eq_of_pairwise ?_ sortedFirst sortedSecond
  intro a b _ _ less greater
  exact absurd (BitVec.lt_trans less greater) (BitVec.lt_irrefl _)

/-- Dropping repeats from the sorted list leaves the first order of each key of the list. -/
theorem ranked_eq_ranking (leaves : List Leaf) : ranked leaves = ranking leaves := by
  have members : ∀ l, l ∈ ranked leaves ↔ l ∈ ranking leaves := by
    intro l
    rw [ranked, mem_dropRepeats (sorted_mergeSort leaves) (by simp), find?_mergeSort, ranking,
      List.mem_mergeSort, mem_firstOfEachKey]
    simp
  have distinct {list : List Leaf} (sorted : list.Pairwise fun a b => a.orderId < b.orderId) :
      list.Nodup := sorted.imp fun less same => BitVec.ne_of_lt less (congrArg _ same)
  refine eq_of_sorted ?_ (sorted_ranked leaves) (sorted_ranking leaves)
  apply (List.perm_ext_iff_of_nodup _ _).mpr members
  · exact distinct (sorted_ranked leaves)
  · exact distinct (sorted_ranking leaves)

end PerpDex
