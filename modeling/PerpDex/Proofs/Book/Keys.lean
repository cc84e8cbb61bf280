import Mathlib.Data.Nat.Bitwise
import PerpDex.Book.Node

/-! Keys as strings of bits. The first bit in which two keys differ decides which of them is less,
so keys that share a prefix are ranked by the bit behind it. -/
namespace PerpDex

variable {a b c : BitVec 128} {m n : Nat}

/-- The first `n` bits of the keys, counted from the top, are the same. -/
def SharePrefix (n : Nat) (a b : BitVec 128) : Prop := ∀ i < n, a.getMsbD i = b.getMsbD i

instance : Decidable (SharePrefix n a b) :=
  inferInstanceAs (Decidable (∀ i < n, a.getMsbD i = b.getMsbD i))

namespace SharePrefix

@[refl] theorem refl (n : Nat) (a : BitVec 128) : SharePrefix n a a := fun _ _ => rfl

theorem symm (h : SharePrefix n a b) : SharePrefix n b a := fun i lt => (h i lt).symm

theorem trans (first : SharePrefix n a b) (second : SharePrefix n b c) : SharePrefix n a c :=
  fun i lt => (first i lt).trans (second i lt)

theorem mono (h : SharePrefix n a b) (le : m ≤ n) : SharePrefix m a b :=
  fun i lt => h i (Nat.lt_of_lt_of_le lt le)

theorem succ (h : SharePrefix n a b) (bit : a.getMsbD n = b.getMsbD n) :
    SharePrefix (n + 1) a b := by
  intro i lt
  rcases Nat.lt_or_eq_of_le (Nat.le_of_lt_succ lt) with less | rfl
  · exact h i less
  · exact bit

/-- The bit behind a shared prefix ranks the keys. -/
theorem lt (h : SharePrefix n a b) (low : a.getMsbD n = false) (high : b.getMsbD n = true) :
    a < b := by
  have inside : n < 128 := BitVec.lt_of_getMsbD high
  simp only [BitVec.getMsbD_eq_getLsbD, inside, decide_true, Bool.true_and] at low high
  rw [BitVec.lt_def]
  refine Nat.lt_of_testBit (128 - 1 - n) low high fun j above => ?_
  by_cases within : j < 128
  · have bits := h (128 - 1 - j) (by omega)
    have position : 128 - 1 - (128 - 1 - j) = j := by omega
    have top : 128 - 1 - j < 128 := by omega
    simpa [BitVec.getMsbD_eq_getLsbD, BitVec.testBit_toNat, position, top] using bits
  · have a0 := BitVec.getLsbD_of_ge a j (by omega)
    have b0 := BitVec.getLsbD_of_ge b j (by omega)
    exact a0.trans b0.symm

/-- A key that is not less than one with the bit set has the bit set. -/
theorem bit_of_le (h : SharePrefix n a b) (le : a ≤ b) (high : a.getMsbD n = true) :
    b.getMsbD n = true := by
  by_contra low
  exact BitVec.not_lt.mpr le (h.symm.lt (Bool.eq_false_iff.mpr low) high)

end SharePrefix

theorem sharedBits_le (a b : BitVec 128) : sharedBits a b ≤ 128 := by
  simpa [sharedBits] using BitVec.le_def.mp (BitVec.clz_le (x := a ^^^ b))

theorem sharePrefix_sharedBits (a b : BitVec 128) : SharePrefix (sharedBits a b) a b := by
  intro i lt
  have bound := BitVec.toNat_lt_two_pow_sub_clz (x := a ^^^ b)
  have inside : i < 128 := Nat.lt_of_lt_of_le lt (sharedBits_le a b)
  have clear : (a ^^^ b).getMsbD i = false := by
    rw [BitVec.getMsbD_eq_getLsbD, ← BitVec.testBit_toNat, Nat.testBit_lt_two_pow, Bool.and_false]
    refine Nat.lt_of_lt_of_le bound (Nat.pow_le_pow_right (by omega) ?_)
    unfold sharedBits at lt
    omega
  simpa using clear

theorem getMsbD_sharedBits_ne (different : a ≠ b) :
    a.getMsbD (sharedBits a b) ≠ b.getMsbD (sharedBits a b) := by
  have nonzero : a ^^^ b ≠ 0#128 := fun zero => different (BitVec.xor_eq_zero_iff.mp zero)
  have inside : sharedBits a b < 128 := by
    simpa [sharedBits] using BitVec.lt_def.mp (BitVec.clz_lt_iff_ne_zero.mpr nonzero)
  have set := BitVec.getLsbD_true_clz_of_ne_zero (by omega) nonzero
  have bit : (a ^^^ b).getMsbD (sharedBits a b) = true := by
    rw [BitVec.getMsbD_eq_getLsbD, sharedBits, set, Bool.and_true]
    exact decide_eq_true inside
  simpa using bit

theorem sharedBits_lt (different : a ≠ b) : sharedBits a b < 128 := by
  by_contra outside
  have same := sharePrefix_sharedBits a b
  exact different (BitVec.eq_of_getMsbD_eq fun i lt => same i (by omega))

@[simp] theorem sharedBits_self (a : BitVec 128) : sharedBits a a = 128 := by
  have zero : (a ^^^ a).clz = 128 := BitVec.clz_eq_iff_eq_zero.mpr BitVec.xor_self
  rw [sharedBits, zero]
  rfl

theorem SharePrefix.le_sharedBits (h : SharePrefix n a b) (inside : n ≤ 128) :
    n ≤ sharedBits a b := by
  by_contra shorter
  have different : a ≠ b := by
    rintro rfl
    rw [sharedBits_self] at shorter
    exact shorter inside
  exact getMsbD_sharedBits_ne different (h _ (by omega))

/-- The lesser of two keys has the bit behind the shared ones clear, the greater one has it set. -/
theorem getMsbD_sharedBits_of_lt (less : a < b) :
    a.getMsbD (sharedBits a b) = false ∧ b.getMsbD (sharedBits a b) = true := by
  have shared := sharePrefix_sharedBits a b
  have differ := getMsbD_sharedBits_ne (BitVec.ne_of_lt less)
  have low : a.getMsbD (sharedBits a b) = false := by
    by_contra set
    have high := Bool.eq_true_of_not_eq_false set
    exact differ (high.trans (shared.bit_of_le (BitVec.le_of_lt less) high).symm)
  exact ⟨low, Bool.eq_true_of_not_eq_false fun clear => differ (low.trans clear.symm)⟩

/-- What the ends of a range of keys share is shared by all keys of the range. -/
theorem SharePrefix.of_between (h : SharePrefix n a c) (lower : a ≤ b) (upper : b ≤ c) :
    SharePrefix n a b := by
  by_contra split
  have shorter : sharedBits a b < n := by
    by_contra longer
    exact split ((sharePrefix_sharedBits a b).mono (by omega))
  have different : a ≠ b := by
    rintro rfl
    exact split (refl n a)
  have less : a < b := BitVec.lt_of_le_ne lower different
  have bits := getMsbD_sharedBits_of_lt less
  have behind : SharePrefix (sharedBits a b) b c :=
    (sharePrefix_sharedBits a b).symm.trans (h.mono (by omega))
  have set := behind.bit_of_le upper bits.2
  rw [← h _ shorter, bits.1] at set
  exact absurd set (by decide)

namespace OrderKey

theorem toNat_toWord (key : OrderKey) :
    key.toWord.toNat = key.price.toNat * 2 ^ 64 + key.sequence.toNat := by
  have low : key.sequence.toNat < 2 ^ 64 := key.sequence.toNat_lt
  rw [toWord, BitVec.toNat_append, ← Nat.shiftLeft_eq, Nat.shiftLeft_add_eq_or_of_lt low]
  rfl

variable {a b : OrderKey}

/-- Price-time order: the lower price comes first, and of one price the lower sequence number. -/
def Before (a b : OrderKey) : Prop :=
  Prod.Lex (· < ·) (· < ·) (a.price, a.sequence) (b.price, b.sequence)

theorem before_iff :
    a.Before b ↔ a.price < b.price ∨ a.price = b.price ∧ a.sequence < b.sequence :=
  Prod.lex_def

/-- The number of a key leaves room for every sequence number below the next price. -/
theorem toWord_lt_iff : a.toWord < b.toWord ↔ a.Before b := by
  have := a.sequence.toNat_lt
  have := b.sequence.toNat_lt
  rw [before_iff, BitVec.lt_def, toNat_toWord, toNat_toWord, UInt64.lt_iff_toNat_lt,
    UInt64.lt_iff_toNat_lt, ← UInt64.toNat_inj]
  omega

theorem price_le_of_toWord_lt (less : a.toWord < b.toWord) : a.price.toNat ≤ b.price.toNat := by
  rcases before_iff.mp (toWord_lt_iff.mp less) with lower | ⟨same, -⟩
  · exact Nat.le_of_lt (UInt64.lt_iff_toNat_lt.mp lower)
  · exact Nat.le_of_eq (congrArg UInt64.toNat same)

end OrderKey

end PerpDex
