import Mathlib.Order.Bounds.Basic
import PerpDex.Bytes

/-! Records in numbered slots, some of which are empty. Read in the order of the slots, each record
stands for the slot it tells, and a search among the records finds the lowest slot that fits. -/
namespace PerpDex

variable {α : Type} {slot : α → Nat} {read : Nat → Option α} {n : Nat} {a : α}

def records (read : Nat → Option α) (n : Nat) : List α := (List.range n).filterMap read

/-- Every record tells the slot it is read from. -/
def Numbered (slot : α → Nat) (read : Nat → Option α) : Prop :=
  ∀ i a, read i = some a → slot a = i

/-- A list by slot, with one record for each of the slots in use and what that slot holds. -/
structure ListsSlots (slot : α → Nat) (used : Nat → Prop) (holds : Nat → α → Prop)
    (list : List α) : Prop where
  ascending : list.Pairwise fun a b => slot a < slot b
  used_iff : ∀ i, (∃ a ∈ list, slot a = i) ↔ used i
  held : ∀ a ∈ list, holds (slot a) a

theorem mem_records_iff (numbered : Numbered slot read) :
    a ∈ records read n ↔ slot a < n ∧ read (slot a) = some a := by
  rw [records, List.mem_filterMap]
  constructor
  · rintro ⟨i, member, here⟩
    obtain rfl := numbered _ _ here
    exact ⟨List.mem_range.mp member, here⟩
  · rintro ⟨inside, here⟩
    exact ⟨slot a, List.mem_range.mpr inside, here⟩

theorem ascending_records (numbered : Numbered slot read) (n : Nat) :
    (records read n).Pairwise fun a b => slot a < slot b := by
  refine List.Pairwise.filterMap read ?_ List.pairwise_lt_range
  intro i j less a atI b atJ
  rwa [numbered _ _ atI, numbered _ _ atJ]

theorem listsSlots_records (numbered : Numbered slot read) {used : Nat → Prop}
    {holds : Nat → α → Prop} (used_iff : ∀ i, used i ↔ i < n ∧ ∃ a, read i = some a)
    (held : ∀ i < n, ∀ a, read i = some a → holds i a) :
    ListsSlots slot used holds (records read n) where
  ascending := ascending_records numbered n
  used_iff i := by
    simp only [mem_records_iff numbered, used_iff]
    constructor
    · rintro ⟨a, ⟨inside, here⟩, rfl⟩
      exact ⟨inside, a, here⟩
    · rintro ⟨inside, a, here⟩
      obtain rfl := numbered _ _ here
      exact ⟨a, ⟨inside, here⟩, rfl⟩
  held a member := by
    obtain ⟨inside, here⟩ := (mem_records_iff numbered).mp member
    exact held _ inside a here

theorem find?_eq_some_iff_of_ascending {list : List α} {p : α → Bool}
    (ascending : list.Pairwise fun a b => slot a < slot b) :
    list.find? p = some a ↔ a ∈ list ∧ p a = true ∧ ∀ b ∈ list, p b = true → slot a ≤ slot b := by
  induction ascending with
  | nil => simp
  | @cons head rest less _ ih =>
    by_cases fits : p head = true
    · rw [List.find?_cons_of_pos fits]
      constructor
      · intro found
        obtain rfl := Option.some.inj found
        refine ⟨List.mem_cons_self, fits, fun b member _ => ?_⟩
        rcases List.mem_cons.mp member with rfl | later
        · exact Nat.le_refl _
        · exact Nat.le_of_lt (less b later)
      · rintro ⟨member, -, lowest⟩
        rcases List.mem_cons.mp member with rfl | later
        · rfl
        · -- The head fits and has the lower slot.
          exact absurd (less a later) (Nat.not_lt.mpr (lowest head List.mem_cons_self fits))
    · rw [List.find?_cons_of_neg fits, ih, List.forall_mem_cons, List.mem_cons]
      constructor
      · rintro ⟨member, holds, lowest⟩
        exact ⟨.inr member, holds, fun other => absurd other fits, lowest⟩
      · rintro ⟨rfl | member, holds, -, lowest⟩
        · exact absurd holds fits
        · exact ⟨member, holds, lowest⟩

/-- A search finds the record of the lowest slot that holds one that fits. -/
theorem find?_records_eq_some_iff (numbered : Numbered slot read) {p : α → Bool} :
    (records read n).find? p = some a ↔
      read (slot a) = some a ∧ IsLeast {i | i < n ∧ ∃ b, read i = some b ∧ p b = true} (slot a) := by
  rw [find?_eq_some_iff_of_ascending (ascending_records numbered n)]
  simp only [mem_records_iff numbered]
  constructor
  · rintro ⟨⟨inside, here⟩, fits, lowest⟩
    refine ⟨here, ⟨inside, a, here, fits⟩, ?_⟩
    rintro i ⟨below, b, atI, fitsToo⟩
    obtain rfl := numbered _ _ atI
    exact lowest b ⟨below, atI⟩ fitsToo
  · rintro ⟨here, ⟨inside, b, atA, fits⟩, lowest⟩
    obtain rfl : a = b := Option.some.inj (here.symm.trans atA)
    exact ⟨⟨inside, here⟩, fits, fun c ⟨below, atC⟩ fitsToo => lowest ⟨below, c, atC, fitsToo⟩⟩

theorem find?_records_eq_none_iff {p : α → Bool} :
    (records read n).find? p = none ↔ ∀ i < n, ∀ a, read i = some a → p a = false := by
  simp only [List.find?_eq_none, Bool.not_eq_true, records, List.mem_filterMap, List.mem_range]
  constructor
  · exact fun none i below a here => none a ⟨i, below, here⟩
  · rintro none a ⟨i, below, here⟩
    exact none i below a here

/-- Records picked by what their slots tell are those of the slots that tell it. -/
theorem ListsSlots.filter {used fits : Nat → Prop} {holds : Nat → α → Prop} {list : List α}
    (lists : ListsSlots slot used holds list) {p : α → Bool}
    (fits_iff : ∀ a ∈ list, p a = true ↔ fits (slot a)) :
    ListsSlots slot (fun i => used i ∧ fits i) holds (list.filter p) where
  ascending := lists.ascending.filter p
  used_iff i := by
    simp only [List.mem_filter, ← lists.used_iff]
    constructor
    · rintro ⟨a, ⟨member, picked⟩, rfl⟩
      exact ⟨⟨a, member, rfl⟩, (fits_iff a member).mp picked⟩
    · rintro ⟨⟨a, member, rfl⟩, told⟩
      exact ⟨a, ⟨member, (fits_iff a member).mpr told⟩, rfl⟩
  held a member := lists.held a (List.mem_filter.mp member).1

end PerpDex
