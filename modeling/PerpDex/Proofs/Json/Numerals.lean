import Mathlib.Data.List.TakeWhile
import PerpDex.Json.Number

/-! Numerals: the digits of an unsigned integer of 64 bits are a number in range, and the integer is
read from them. -/
namespace PerpDex.Json.Literal

variable {digits : List Char}

theorem value_toDigits (n : Nat) : value (Nat.toDigits 10 n) = n := by
  have folded := Nat.ofDigitChars_ten_toDigits (n := n)
  simp only [Nat.ofDigitChars, Nat.mul_comm 10] at folded
  exact folded

theorem isDigit_of_mem_toDigits {n : Nat} : ∀ c ∈ Nat.toDigits 10 n, c.isDigit :=
  fun _ => Nat.isDigit_of_mem_toDigits (by decide) (by decide)

/-- Only zero starts with a zero. -/
theorem exists_toDigits {n : Nat} (positive : 0 < n) :
    ∃ c rest, Nat.toDigits 10 n = c :: rest ∧ c ≠ '0' := by
  have nonzero : ∀ n < 10, 0 < n → n.digitChar ≠ '0' := by decide
  induction n using Nat.strongRecOn with
  | ind n ih =>
    rw [Nat.toDigits_eq_if (by decide)]
    split
    · rename_i small
      exact ⟨n.digitChar, [], rfl, nonzero n small positive⟩
    · obtain ⟨c, rest, front, first⟩ := ih (n / 10) (by omega) (by omega)
      exact ⟨c, rest ++ [(n % 10).digitChar], by rw [front]; rfl, first⟩

theorem isWhole_toDigits (n : Nat) : isWhole (Nat.toDigits 10 n) := by
  rcases Nat.eq_zero_or_pos n with rfl | positive
  · decide
  · have all := List.all_eq_true.mpr (isDigit_of_mem_toDigits (n := n))
    obtain ⟨c, rest, digits, first⟩ := exists_toDigits positive
    rw [digits] at all ⊢
    simpa [isWhole, first] using all

/-- Digits without a zero in front of them are a plain number. -/
theorem read?_of_isWhole (whole : isWhole digits) (all : ∀ c ∈ digits, c.isDigit) :
    read? digits = some ⟨false, true, digits, [], 0⟩ := by
  have apart : ∀ c ∈ digits, ∀ other : Char, other.isDigit = false → c ≠ other := by
    rintro c member _ other rfl
    simp [all c member] at other
  have unmarked : ∀ c ∈ digits, !isMark c := by
    intro c member
    simp [isMark, apart c member 'e' rfl, apart c member 'E' rfl]
  have pointless : ∀ c ∈ digits, c != '.' := by
    intro c member
    simp [apart c member '.' rfl]
  have mantissa := List.takeWhile_eq_self_iff.mpr unmarked
  have noExponent := List.dropWhile_eq_nil_iff.mpr unmarked
  have allWhole := List.takeWhile_eq_self_iff.mpr pointless
  have noPlaces := List.dropWhile_eq_nil_iff.mpr pointless
  cases digits with
  | nil => cases whole
  | cons c rest =>
    have unsigned : c ≠ '-' := apart c List.mem_cons_self '-' rfl
    simp [read?, unsigned, mantissa, noExponent, allWhole, noPlaces, whole]

/-- Digits are not left over as long as the number keeps within 64 bits. -/
theorem append_of_lt (n : Nat)
    (fits : digits.foldl (fun n c => n * 10 + digit c) n < 2 ^ 64) :
    append n digits = (digits.foldl (fun n c => n * 10 + digit c) n, []) := by
  have grows : ∀ (digits : List Char) (n : Nat),
      n ≤ digits.foldl (fun n c => n * 10 + digit c) n := by
    intro digits
    induction digits with
    | nil => exact fun n => Nat.le_refl n
    | cons c rest ih => exact fun n => Nat.le_trans (by omega) (ih (n * 10 + digit c))
  induction digits generalizing n with
  | nil => rfl
  | cons c rest ih =>
    have next := grows rest (n * 10 + digit c)
    rw [List.foldl_cons] at fits ⊢
    rw [append, if_pos (by omega), ih _ fits]

theorem nearest_le {n : Nat} (fits : n < 2 ^ 64) : nearest n ≤ 2 ^ 76 := by
  have bits : n.log2 + 1 - 53 ≤ 11 := by
    rcases Nat.eq_zero_or_pos n with rfl | positive
    · decide
    · have := (Nat.log2_lt positive.ne').mpr fits
      omega
  have unit : 0 < 2 ^ (n.log2 + 1 - 53) := Nat.two_pow_pos _
  have rounded := Decimal.natAbs_roundHalfEven_le (n := n) (c := n) unit (Nat.le_mul_of_pos_right n unit)
  unfold nearest
  calc (roundHalfEven n (2 ^ (n.log2 + 1 - 53))).toNat * 2 ^ (n.log2 + 1 - 53)
      ≤ 2 ^ 64 * 2 ^ 11 := Nat.mul_le_mul (by omega) (Nat.pow_le_pow_right (by decide) bits)
    _ ≤ 2 ^ 76 := by decide

theorem inRange_of_lt (fits : value digits < 2 ^ 64) :
    inRange ⟨false, true, digits, [], 0⟩ := by
  have magnitude : magnitude ⟨false, true, digits, [], 0⟩ = (value digits, 0) := by
    simp [magnitude, append_of_lt 0 fits, append, value]
  have small : nearest (value digits) * nearest 1 < limit :=
    calc nearest (value digits) * nearest 1
        ≤ 2 ^ 76 * 1 := Nat.mul_le_mul (nearest_le fits) (by decide)
      _ < limit := by decide +kernel
  have bounded : (0 : Int) ≤ maxExponent := by decide
  simp [inRange, magnitude, bounded, small]

end PerpDex.Json.Literal
