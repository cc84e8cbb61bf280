import Mathlib.Data.List.TakeWhile
import PerpDex.Proofs.Book.SlotTree

/-! The tree of a sorted list of orders. The list is cut where the first bit changes that the keys of
its ends do not share: since the keys ascend, that bit is clear up to the cut and set from there on.
Every fact about the tree is proved by the one induction that this gives. -/
namespace PerpDex.Tree

abbrev Ascending (leaves : List Leaf) : Prop := leaves.Pairwise fun a b => a.orderId < b.orderId

structure Split (head : Leaf) (rest low : List Leaf) (middle : Leaf) (tail : List Leaf)
    (bit : Nat) : Prop where
  inside : bit < 128
  whole : low ++ middle :: tail = rest
  lowAscending : Ascending (head :: low)
  highAscending : Ascending (middle :: tail)
  low : ∀ l ∈ head :: low,
    SharePrefix bit l.orderId head.orderId ∧ l.orderId.getMsbD bit = false
  high : ∀ l ∈ middle :: tail,
    SharePrefix bit l.orderId head.orderId ∧ l.orderId.getMsbD bit = true

variable {head middle : Leaf} {rest tail : List Leaf}

theorem le_last (ascending : Ascending (head :: rest)) :
    ∀ l ∈ head :: rest, l.orderId ≤ (rest.getLastD head).orderId := by
  induction rest generalizing head with
  | nil =>
    intro l member
    obtain rfl := List.mem_singleton.mp member
    exact BitVec.le_refl _
  | cons next rest ih =>
    obtain ⟨less, behind⟩ := List.pairwise_cons.mp ascending
    intro l member
    rw [List.getLastD_cons]
    rcases List.mem_cons.mp member with rfl | later
    · exact BitVec.le_trans (BitVec.le_of_lt (less next List.mem_cons_self))
        (ih behind next List.mem_cons_self)
    · exact ih behind l later

/-- All keys of a sorted list share what the first and the last one share. -/
theorem share_sharedByAll (ascending : Ascending (head :: rest)) :
    ∀ l ∈ head :: rest, SharePrefix (sharedByAll head rest) head.orderId l.orderId := by
  intro l member
  have upper := le_last ascending l member
  have lower : head.orderId ≤ l.orderId := by
    rcases List.mem_cons.mp member with rfl | later
    · exact BitVec.le_refl _
    · exact BitVec.le_of_lt ((List.pairwise_cons.mp ascending).1 l later)
  exact (sharePrefix_sharedBits _ _).of_between lower upper

/-- Behind the shared bits the first key has a clear bit and the last one a set bit. -/
theorem bit_of_ends (ascending : Ascending (head :: rest)) (more : rest ≠ []) :
    head.orderId.getMsbD (sharedByAll head rest) = false ∧
      (rest.getLastD head).orderId.getMsbD (sharedByAll head rest) = true := by
  have member : rest.getLastD head ∈ rest := by
    rw [List.getLastD_eq_getLast?, List.getLast?_eq_some_getLast more]
    exact List.getLast_mem more
  exact getMsbD_sharedBits_of_lt ((List.pairwise_cons.mp ascending).1 _ member)

theorem rest_eq_nil (ascending : Ascending (head :: rest)) (none : highPart head rest = []) :
    rest = [] := by
  by_contra more
  have clear := List.dropWhile_eq_nil_iff.mp none (rest.getLastD head) (by
    rw [List.getLastD_eq_getLast?, List.getLast?_eq_some_getLast more]
    exact List.getLast_mem more)
  rw [(bit_of_ends ascending more).2] at clear
  exact absurd clear (by decide)

theorem split_of_highPart (ascending : Ascending (head :: rest))
    (cut : highPart head rest = middle :: tail) :
    Split head rest (lowPart head rest) middle tail (sharedByAll head rest) := by
  have whole : lowPart head rest ++ middle :: tail = rest :=
    cut ▸ lowPart_append_highPart head rest
  have more : rest ≠ [] := by
    rintro rfl
    cases cut
  have shared := share_sharedByAll ascending
  have sub : ∀ l ∈ middle :: tail, l ∈ head :: rest := fun l member =>
    List.mem_cons_of_mem _ (whole ▸ List.mem_append_right _ member)
  have highAscending : Ascending (middle :: tail) :=
    (List.pairwise_append.mp (whole ▸ (List.pairwise_cons.mp ascending).2)).2.1
  have set : middle.orderId.getMsbD (sharedByAll head rest) = true := by
    have fails := List.head?_dropWhile_not (fun l : Leaf => !l.orderId.getMsbD (sharedByAll head rest))
      rest
    rw [show rest.dropWhile _ = middle :: tail from cut] at fails
    simpa using fails
  refine ⟨sharedBits_lt ?_, whole, ?_, highAscending, ?_, ?_⟩
  · intro same
    have ends := bit_of_ends ascending more
    rw [← same, ends.1] at ends
    exact absurd ends.2 (by decide)
  · exact ascending.sublist ((List.takeWhile_sublist _).cons_cons head)
  · intro l member
    rcases List.mem_cons.mp member with rfl | low
    · exact ⟨.refl _ _, (bit_of_ends ascending more).1⟩
    · have inRest : l ∈ rest := (List.takeWhile_sublist _).subset low
      have clear := List.mem_takeWhile_imp low
      exact ⟨(shared l (List.mem_cons_of_mem _ inRest)).symm, by simpa using clear⟩
  · intro l member
    refine ⟨(shared l (sub l member)).symm, ?_⟩
    have before : SharePrefix (sharedByAll head rest) middle.orderId l.orderId :=
      (shared middle (sub middle List.mem_cons_self)).symm.trans (shared l (sub l member))
    refine before.bit_of_le ?_ set
    rcases List.mem_cons.mp member with rfl | later
    · exact BitVec.le_refl _
    · exact BitVec.le_of_lt ((List.pairwise_cons.mp highAscending).1 l later)

/-- What holds of single orders and of trees joined at the cut of a list holds of the tree of every
sorted list. -/
theorem ofSorted_induction {motive : Leaf → List Leaf → Tree → Prop}
    (single : ∀ head, motive head [] (.leaf head))
    (join : ∀ head rest low middle tail bit, Split head rest low middle tail bit →
      motive head low (ofSorted head low) → motive middle tail (ofSorted middle tail) →
      motive head rest (.branch bit (ofSorted head low) (ofSorted middle tail)))
    (ascending : Ascending (head :: rest)) : motive head rest (ofSorted head rest) := by
  fun_induction ofSorted head rest with
  | case1 head rest none =>
    obtain rfl := rest_eq_nil ascending none
    exact single head
  | case2 head rest middle tail cut ihLow ihHigh =>
    have split := split_of_highPart ascending cut
    exact join head rest _ middle tail _ split (ihLow split.lowAscending)
      (ihHigh split.highAscending)

theorem leaves_ofSorted (ascending : Ascending (head :: rest)) :
    (ofSorted head rest).leaves = head :: rest := by
  refine ofSorted_induction (motive := fun head rest tree => tree.leaves = head :: rest)
    (fun head => rfl) ?_ ascending
  intro head rest low middle tail bit split ihLow ihHigh
  rw [leaves, ihLow, ihHigh, ← split.whole]
  rfl

theorem first_eq_head? (tree : Tree) : some tree.first = tree.leaves.head? := by
  induction tree with
  | leaf => rfl
  | branch _ left _ ihLeft =>
    rw [first, leaves, List.head?_append, ← ihLeft]
    rfl

theorem first_ofSorted (ascending : Ascending (head :: rest)) :
    (ofSorted head rest).first = head := by
  have first := first_eq_head? (ofSorted head rest)
  rw [leaves_ofSorted ascending] at first
  exact Option.some.inj first

/-- A tree has one branch less than orders. -/
theorem size_eq (tree : Tree) : tree.size + 1 = 2 * tree.leaves.length := by
  induction tree with
  | leaf => rfl
  | branch _ left right ihLeft ihRight =>
    rw [size, leaves, List.length_append]
    omega

def place (start : Nat) : Tree → SlotTree
  | leaf l => .leaf (UInt32.ofNat start) l
  | branch prefixLength left right =>
    .branch (UInt32.ofNat start)
      { prefixLength := UInt32.ofNat prefixLength
        key := left.first.orderId
        left := UInt32.ofNat (start + 1)
        right := UInt32.ofNat (start + 1 + left.size)
        leftExpiry := earliestExpiry left.leaves
        rightExpiry := earliestExpiry right.leaves }
      (left.place (start + 1)) (right.place (start + 1 + left.size))

theorem root_place (tree : Tree) (start : Nat) : (tree.place start).root = UInt32.ofNat start := by
  cases tree <;> rfl

theorem leaves_place (tree : Tree) (start : Nat) : (tree.place start).leaves = tree.leaves := by
  induction tree generalizing start with
  | leaf => rfl
  | branch _ left right ihLeft ihRight => rw [place, SlotTree.leaves, ihLeft, ihRight, leaves]

/-- The tree takes one slot after the other. -/
theorem slots_place (tree : Tree) (start : Nat) :
    (tree.place start).slots = (List.range' start tree.size).map UInt32.ofNat := by
  induction tree generalizing start with
  | leaf => rfl
  | branch _ left right ihLeft ihRight =>
    have count : left.size + right.size + 1 = 1 + (left.size + right.size) := by omega
    rw [place, SlotTree.slots, ihLeft, ihRight, ← List.map_append, ← List.map_cons, size, count,
      ← List.range'_append_1, ← List.range'_append_1]
    rfl

theorem toNat_slot {n : Nat} (lt : n < 2 ^ 32) : (UInt32.ofNat n).toNat = n := by
  rw [UInt32.toNat_ofNat']
  exact Nat.mod_eq_of_lt lt

theorem stored_place (tree : Tree) {start : Nat} {nodes : List Node}
    (fits : start + tree.size ≤ 2 ^ 32)
    (laid : ∀ i < tree.size, nodes[start + i]? = (tree.nodes start)[i]?) :
    (tree.place start).Stored nodes := by
  induction tree generalizing start with
  | leaf l =>
    simp only [size] at fits laid
    rw [place, SlotTree.Stored, toNat_slot (by omega)]
    exact laid 0 (by omega)
  | branch prefixLength left right ihLeft ihRight =>
    simp only [size] at fits laid
    have inLeft : ∀ i < left.size, nodes[start + 1 + i]? = (left.nodes (start + 1))[i]? := by
      intro i lt
      have below := laid (i + 1) (by omega)
      rw [Tree.nodes, List.getElem?_cons_succ,
        List.getElem?_append_left (by simpa using lt)] at below
      rw [← below, Nat.add_assoc, Nat.add_comm 1 i]
    have inRight : ∀ i < right.size,
        nodes[start + 1 + left.size + i]? = (right.nodes (start + 1 + left.size))[i]? := by
      intro i lt
      have below := laid (left.size + i + 1) (by omega)
      rw [Tree.nodes, List.getElem?_cons_succ, List.getElem?_append_right (by simp),
        length_nodes, Nat.add_sub_cancel_left] at below
      rw [← below]
      congr 1
      omega
    refine ⟨?_, (root_place ..).symm, (root_place ..).symm, ?_, ?_⟩
    · rw [toNat_slot (by omega)]
      exact laid 0 (by omega)
    · exact ihLeft (by omega) inLeft
    · exact ihRight (by omega) inRight

theorem critbit_place (ascending : Ascending (head :: rest)) (start : Nat) :
    ((ofSorted head rest).place start).Critbit := by
  refine ofSorted_induction (motive := fun _ _ tree => ∀ start, (tree.place start).Critbit)
    (fun _ _ => trivial) ?_ ascending start
  intro head rest low middle tail bit split ihLow ihHigh start
  have inside := split.inside
  have length : (UInt32.ofNat bit).toNat = bit := toNat_slot (by omega)
  refine ⟨by simp only [length]; omega, ?_, ?_, ihLow _, ihHigh _⟩
  · intro l member
    rw [leaves_place, leaves_ofSorted split.lowAscending] at member
    simp only [length, first_ofSorted split.lowAscending]
    exact split.low l member
  · intro l member
    rw [leaves_place, leaves_ofSorted split.highAscending] at member
    simp only [length, first_ofSorted split.lowAscending]
    exact split.high l member

/-- What all keys share is no longer than the prefix of any branch. -/
theorem le_prefixLength (ascending : Ascending (head :: rest)) {n : Nat}
    (shared : ∀ l ∈ head :: rest, SharePrefix n l.orderId head.orderId) (start : Nat) :
    ∀ b ∈ ((ofSorted head rest).place start).branches, n ≤ b.prefixLength.toNat := by
  refine ofSorted_induction
    (motive := fun head rest tree => (∀ l ∈ head :: rest, SharePrefix n l.orderId head.orderId) →
      ∀ start, ∀ b ∈ (tree.place start).branches, n ≤ b.prefixLength.toNat)
    ?_ ?_ ascending shared start
  · intro head _ start b member
    cases member
  · intro head rest low middle tail bit split ihLow ihHigh shared start
    have inside := split.inside
    have inLow : ∀ l ∈ head :: low, l ∈ head :: rest := fun l member => by
      rw [← split.whole, ← List.cons_append]
      exact List.mem_append_left _ member
    have inHigh : ∀ l ∈ middle :: tail, l ∈ head :: rest := fun l member => by
      rw [← split.whole]
      exact List.mem_cons_of_mem _ (List.mem_append_right _ member)
    have toMiddle := shared middle (inHigh middle List.mem_cons_self)
    have le : n ≤ bit := by
      by_contra shorter
      have same := toMiddle bit (by omega)
      rw [(split.low head List.mem_cons_self).2, (split.high middle List.mem_cons_self).2] at same
      exact absurd same (by decide)
    intro b member
    rcases List.mem_cons.mp member with rfl | below
    · simpa only [toNat_slot (show bit < 2 ^ 32 by omega)] using le
    · rcases List.mem_append.mp below with low | high
      · exact ihLow (fun l member => shared l (inLow l member)) _ b low
      · refine ihHigh (fun l member => ?_) _ b high
        exact (shared l (inHigh l member)).trans toMiddle.symm

/-- Below a branch all keys share its prefix and one bit more. -/
theorem deepening_place (ascending : Ascending (head :: rest)) (start : Nat) :
    ((ofSorted head rest).place start).Deepening := by
  refine ofSorted_induction (motive := fun _ _ tree => ∀ start, (tree.place start).Deepening)
    (fun _ _ => trivial) ?_ ascending start
  intro head rest low middle tail bit split ihLow ihHigh start
  have inside := split.inside
  have length : (UInt32.ofNat bit).toNat = bit := toNat_slot (by omega)
  refine ⟨fun b below => ?_, ihLow _, ihHigh _⟩
  rw [UInt32.lt_iff_toNat_lt, length]
  rcases List.mem_append.mp below with inLow | inHigh
  · refine le_prefixLength split.lowAscending (fun l member => ?_) _ b inLow
    have first := split.low head List.mem_cons_self
    have own := split.low l member
    exact own.1.succ (own.2.trans first.2.symm)
  · refine le_prefixLength split.highAscending (fun l member => ?_) _ b inHigh
    have first := split.high middle List.mem_cons_self
    have own := split.high l member
    exact (own.1.trans first.1.symm).succ (own.2.trans first.2.symm)

end PerpDex.Tree
