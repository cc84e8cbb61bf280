import PerpDex.Proofs.Book.WalkOrder

/-! The search for a key against the walk. The search follows one path of slots and gives up where
the key leaves the prefix of a branch; on a tree this misses no order, because all keys below a
branch have its prefix. On any other arena the search still ends, and what it finds it may find. -/
namespace PerpDex

/-- The search without a bound on the slots it visits, with their number and its result. -/
inductive Search (nodes : List Node) (key : BitVec 128) :
    Nat → Handle → Except TreeDefect (Option Leaf) → Prop where
  | outside {slot : Handle} : nodes[slot.toNat]? = none →
      Search nodes key 1 slot (.error (.outOfRange slot nodes.length))
  | leaf {slot : Handle} {l : Leaf} : nodes[slot.toNat]? = some (.leaf l) →
      Search nodes key 1 slot (.ok (if l.orderId = key then some l else none))
  | unused {slot : Handle} {node : Node} : nodes[slot.toNat]? = some node → node.tag ≠ .inner →
      node.tag ≠ .leaf → Search nodes key 1 slot (.ok none)
  | pruned {slot : Handle} {b : Branch} : nodes[slot.toNat]? = some (.inner b) →
      sharedBits key b.key < b.prefixLength.toNat → Search nodes key 1 slot (.ok none)
  | down {slot : Handle} {b : Branch} {visits : Nat} {result : Except TreeDefect (Option Leaf)} :
      nodes[slot.toNat]? = some (.inner b) → b.prefixLength.toNat ≤ sharedBits key b.key →
      Search nodes key visits (b.walkDown key).1 result → Search nodes key (visits + 1) slot result

namespace SlotTree

variable {nodes : List Node} {tree : SlotTree}

/-- No order below a branch has a key without the prefix of the branch. -/
theorem Below.ne_of_pruned {b : Branch} {bit : Bool} {leaves : List Leaf} {key : BitVec 128}
    (below : Below b bit leaves) (inside : b.prefixLength.toNat ≤ 127)
    (pruned : sharedBits key b.key < b.prefixLength.toNat) : ∀ l ∈ leaves, l.orderId ≠ key := by
  rintro l member rfl
  have shared := (below l member).1.le_sharedBits (by omega)
  omega

theorem Below.ne_of_bit {b : Branch} {bit : Bool} {leaves : List Leaf} {key : BitVec 128}
    (below : Below b bit leaves) (other : key.getMsbD b.prefixLength.toNat ≠ bit) :
    ∀ l ∈ leaves, l.orderId ≠ key := by
  rintro l member rfl
  exact other (below l member).2

theorem find?_eq_none_of_ne {leaves : List Leaf} {key : BitVec 128}
    (absent : ∀ l ∈ leaves, l.orderId ≠ key) :
    leaves.find? (fun l => l.orderId = key) = none := by
  rw [List.find?_eq_none]
  intro l member
  simpa using absent l member

/-- With enough visits the search of a tree finds what a search through all of its orders does. -/
theorem findFrom_root (stored : tree.Stored nodes) (critbit : tree.Critbit) (key : BitVec 128)
    {visits : Nat} (enough : tree.slots.length ≤ visits) :
    BookSide.findFrom nodes key visits tree.root =
      .ok (tree.leaves.find? fun l => l.orderId = key) := by
  induction tree generalizing visits with
  | leaf slot l =>
    obtain ⟨visits, rfl⟩ := Nat.exists_eq_add_of_lt enough
    rw [Stored] at stored
    simp only [root, BookSide.findFrom, stored, leaves]
    by_cases same : l.orderId = key <;> simp [same]
  | branch slot b left right ihLeft ihRight =>
    obtain ⟨here, toLeft, toRight, inLeft, inRight⟩ := stored
    obtain ⟨inside, low, high, onLeft, onRight⟩ := critbit
    obtain ⟨visits, rfl⟩ : ∃ fewer, visits = fewer + 1 := by
      rw [slots, List.length_cons] at enough
      exact ⟨visits - 1, by omega⟩
    simp only [slots, List.length_cons, List.length_append] at enough
    simp only [root, BookSide.findFrom, here, leaves, List.find?_append]
    by_cases pruned : sharedBits key b.key < b.prefixLength.toNat
    · rw [if_pos pruned, find?_eq_none_of_ne (low.ne_of_pruned inside pruned),
        find?_eq_none_of_ne (high.ne_of_pruned inside pruned)]
      rfl
    · have position : min b.prefixLength.toNat 127 = b.prefixLength.toNat := by omega
      rw [if_neg pruned, Branch.walkDown, Branch.criticalBit, position]
      cases bit : key.getMsbD b.prefixLength.toNat with
      | false =>
        have absent := find?_eq_none_of_ne (high.ne_of_bit (by rw [bit]; decide))
        have child : b.child false = left.root := toLeft
        rw [absent, Option.or_none, child]
        exact ihLeft inLeft onLeft (by omega)
      | true =>
        have absent := find?_eq_none_of_ne (low.ne_of_bit (by rw [bit]; decide))
        have child : b.child true = right.root := toRight
        rw [absent, Option.none_or, child]
        exact ihRight inRight onRight (by omega)

theorem find?_eq_some_iff {leaves : List Leaf}
    (sorted : leaves.Pairwise fun a b => a.orderId < b.orderId) {key : BitVec 128} {l : Leaf} :
    leaves.find? (fun l => l.orderId = key) = some l ↔ l ∈ leaves ∧ l.orderId = key := by
  constructor
  · intro found
    exact ⟨List.mem_of_find?_eq_some found, by simpa using List.find?_some found⟩
  · rintro ⟨member, rfl⟩
    induction sorted with
    | nil => cases member
    | @cons head rest less _ ih =>
      rcases List.mem_cons.mp member with rfl | later
      · simp
      · have different := BitVec.ne_of_lt (less l later)
        rw [List.find?_cons_of_neg (by simpa using different)]
        exact ih later

end SlotTree

namespace BookSide

variable {book : BookSide} {nodes : List Node} {key : BitVec 128}

/-- The bounded search has the result of the unbounded one, unless that visits more slots. -/
theorem findFrom_search (nodes : List Node) (key : BitVec 128) (visits : Nat) (slot : Handle) :
    (∃ visited ≤ visits, Search nodes key visited slot (findFrom nodes key visits slot)) ∨
      findFrom nodes key visits slot = .error (.tooLong nodes.length) ∧
        ∀ visited result, Search nodes key visited slot result → visits < visited := by
  induction visits generalizing slot with
  | zero =>
    refine .inr ⟨rfl, fun visited result search => ?_⟩
    cases search <;> omega
  | succ visits ih =>
    rw [findFrom]
    cases here : nodes[slot.toNat]? with
    | none => exact .inl ⟨1, by omega, .outside here⟩
    | some node =>
      cases node with
      | leaf l => exact .inl ⟨1, by omega, .leaf here⟩
      | uninitialized | free | lastFree =>
        exact .inl ⟨1, by omega, .unused here (by simp [Node.tag]) (by simp [Node.tag])⟩
      | inner b =>
        by_cases pruned : sharedBits key b.key < b.prefixLength.toNat
        · simp only [pruned, if_true]
          exact .inl ⟨1, by omega, .pruned here pruned⟩
        · simp only [pruned, if_false]
          have deep := Nat.not_lt.mp pruned
          rcases ih (b.walkDown key).1 with ⟨visited, le, search⟩ | ⟨long, more⟩
          · exact .inl ⟨visited + 1, by omega, .down here deep search⟩
          · refine .inr ⟨long, fun visited result search => ?_⟩
            cases search with
            | outside gone => rw [here] at gone; cases gone
            | leaf other => rw [here] at other; cases other
            | unused other notInner => rw [here] at other; cases other; exact absurd rfl notInner
            | pruned other less => rw [here] at other; cases other; exact absurd less pruned
            | down other _ rest =>
              rw [here] at other
              cases other
              have := more _ _ rest
              omega

/-- The search goes from a reachable slot to reachable slots, and gives an order with the key. -/
theorem search_sound {visits : Nat} {slot : Handle} {l : Leaf}
    (search : Search book.nodes key visits slot (.ok (some l))) (reached : book.Reachable slot) :
    l.orderId = key ∧ ∃ slot, book.Reachable slot ∧ leafAt book.nodes slot = some l := by
  generalize found : Except.ok (some l) = result at search
  induction search with
  | outside | unused | pruned => cases found
  | @leaf slot other here =>
    by_cases same : other.orderId = key
    · simp only [same, if_true, Except.ok.injEq, Option.some.injEq] at found
      subst found
      exact ⟨same, slot, reached, by rw [leafAt, here]⟩
    · simp [same] at found
  | down here _ _ ih => exact ih (reached.child _ here) found

/-- On a tree the search finds the order of the walk that has the key, and nothing only if there is
none. On any arena it ends, within as many visits as there are slots or because the search goes on
for longer, and an order that it finds has the key and stands in a slot reached from the root. -/
theorem find_agrees_with_walk (book : BookSide) (key : BitVec 128) :
    ((book.leafCount = 0 ∨ ∃ tree, book.Holds tree) →
      ∃ found, book.find key = .ok found ∧
        ∀ ascending l, found = some l ↔ l ∈ (book.walk ascending).leaves ∧ l.orderId = key) ∧
    (∀ l, book.find key = .ok (some l) →
      l.orderId = key ∧ ∃ slot, book.Reachable slot ∧ leafAt book.nodes slot = some l) ∧
    (book.leafCount ≠ 0 →
      (∃ visits ≤ book.nodes.length, Search book.nodes key visits book.root (book.find key)) ∨
        book.find key = .error (.tooLong book.nodes.length) ∧
          ∀ visits result, Search book.nodes key visits book.root result →
            book.nodes.length < visits) := by
  have bounded := findFrom_search book.nodes key book.nodes.length book.root
  refine ⟨?_, ?_, ?_⟩
  · rintro (empty | ⟨tree, holds⟩)
    · refine ⟨none, by simp [find, isEmpty, empty], fun ascending l => ?_⟩
      simp [walk, isEmpty, empty, walkFrom, Walk.finished]
    · have filled : book.isEmpty = false := by simp [isEmpty, holds.nonempty]
      have enough := holds.stored.length_slots_le holds.distinct
      refine ⟨tree.leaves.find? fun l => l.orderId = key, ?_, fun ascending l => ?_⟩
      · rw [find, filled, ← holds.root]
        exact SlotTree.findFrom_root holds.stored holds.critbit key enough
      · rw [holds.walk_eq, SlotTree.find?_eq_some_iff holds.critbit.sorted]
        cases ascending <;> simp [SlotTree.leavesBy]
  · intro l found
    cases filled : book.isEmpty with
    | true => simp [find, filled] at found
    | false =>
      simp only [find, filled, Bool.false_eq_true, if_false] at found
      rcases bounded with ⟨visits, -, search⟩ | ⟨long, -⟩
      · rw [found] at search
        exact search_sound search .root
      · rw [found] at long
        cases long
  · intro nonempty
    have filled : book.isEmpty = false := by simp [isEmpty, nonempty]
    simp only [find, filled, Bool.false_eq_true, if_false]
    exact bounded

theorem find_in_scattered :
    (scattered.leafCount = 0 ∨ ∃ tree, scattered.Holds tree) ∧
      scattered.find (orderAt 5 2).orderId = .ok (some (orderAt 5 2)) ∧
      scattered.find (orderAt 5 3).orderId = .ok none := by
  have held : scattered.leafCount = 0 ∨ ∃ tree, scattered.Holds tree :=
    .inr ⟨scatteredTree, scattered_holds⟩
  have walked : (scattered.walk true).leaves = [orderAt 5 1, orderAt 5 2, orderAt 9 0] := by
    rw [scattered_holds.walk_eq]
    rfl
  obtain ⟨present, hit, agreesHit⟩ := (find_agrees_with_walk scattered (orderAt 5 2).orderId).1 held
  obtain ⟨absent, miss, agreesMiss⟩ := (find_agrees_with_walk scattered (orderAt 5 3).orderId).1 held
  have found : present = some (orderAt 5 2) := by
    rw [agreesHit true, walked]
    decide
  have missed : absent = none := by
    rw [Option.eq_none_iff_forall_ne_some]
    intro l same
    rw [agreesMiss true, walked] at same
    obtain ⟨member, key⟩ := same
    revert l
    decide
  exact ⟨held, found ▸ hit, missed ▸ miss⟩

end BookSide
end PerpDex
