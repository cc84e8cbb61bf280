import Mathlib.Data.Nat.Digits.Lemmas
import PerpDex.Address

/-! Base 58 text reads back as the bytes it was written for. The digits of the text and the bytes are
the digits of one number, so only the leading zeros need care: they are no digits of the number. -/
namespace PerpDex.Base58

theorem digitValue?_digit : ∀ value < 58, digitValue? (digit value) = some value := by
  decide

theorem digitsOf_eq (n : Nat) (rest : List Char) :
    digitsOf n rest = ((Nat.digits 58 n).map digit).reverse ++ rest := by
  fun_induction digitsOf n rest with
  | case1 => simp
  | case2 n rest positive ih =>
    rw [ih, Nat.digits_def' (by decide) (Nat.pos_of_ne_zero positive)]
    simp

theorem mapM_digitValue? {values : List Nat} (digits : ∀ value ∈ values, value < 58) :
    (values.map digit).mapM digitValue? = some values := by
  induction values with
  | nil => rfl
  | cons value rest ih =>
    obtain ⟨head, tail⟩ := List.forall_mem_cons.mp digits
    rw [List.map_cons, List.mapM_cons, digitValue?_digit value head, ih tail]
    rfl

def values (data : Bytes) : List Nat :=
  List.replicate (data.takeWhile (· == 0)).length 0 ++ (Nat.digits 58 (number data)).reverse

theorem values_lt (data : Bytes) : ∀ value ∈ values data, value < 58 := by
  intro value member
  rcases List.mem_append.mp member with zero | inside
  · rw [List.eq_of_mem_replicate zero]
    decide
  · exact Nat.digits_lt_base (by decide) (List.mem_reverse.mp inside)

theorem toList_encode (data : Bytes) : (encode data).toList = (values data).map digit := by
  have one : digit 0 = '1' := by decide
  simp [encode, values, digitsOf_eq, one, List.map_const']

/-- The highest digit of a number is not zero. -/
theorem takeWhile_reverse_digits (n : Nat) :
    (Nat.digits 58 n).reverse.takeWhile (· == 0) = [] := by
  rcases Nat.eq_zero_or_pos n with rfl | positive
  · simp
  · have highest := Nat.getLast_digit_ne_zero 58 positive.ne'
    have some : Nat.digits 58 n ≠ [] := Nat.digits_ne_nil_iff_ne_zero.mpr positive.ne'
    have split := List.dropLast_append_getLast some
    rw [← split, List.reverse_append, List.reverse_singleton, List.singleton_append,
      List.takeWhile_cons_of_neg (by simpa using highest)]

theorem takeWhile_values (data : Bytes) :
    (values data).takeWhile (· == 0) = List.replicate (data.takeWhile (· == 0)).length 0 := by
  rw [values, List.takeWhile_append_of_pos (by simp), takeWhile_reverse_digits, List.append_nil]

theorem foldl_values (data : Bytes) :
    (values data).foldl (fun n d => n * 58 + d) 0 = number data := by
  have zeros : ∀ count, (List.replicate count 0).foldl (fun n d => n * 58 + d) 0 = 0 := by
    intro count
    induction count with
    | zero => rfl
    | succ count ih => rw [List.replicate_succ, List.foldl_cons, ih]
  calc (values data).foldl (fun n d => n * 58 + d) 0
      = (Nat.digits 58 (number data)).foldr (fun d n => n * 58 + d) 0 := by
        rw [values, List.foldl_append, zeros, List.foldl_reverse]
    _ = Nat.ofDigits 58 (Nat.digits 58 (number data)) := by
        simp only [Nat.ofDigits_eq_foldr, Nat.cast_id, Nat.mul_comm, Nat.add_comm]
    _ = number data := Nat.ofDigits_digits 58 _

theorem number_append_singleton (data : Bytes) (b : UInt8) :
    number (data ++ [b]) = b.toNat + 256 * number data := by
  simp [number, Bytes.toNat]

theorem bytesOf_of_pos {n : Nat} (positive : 0 < n) :
    bytesOf n = UInt8.ofNat n :: bytesOf (n / 256) := by
  rw [bytesOf, dif_neg positive.ne']

@[simp] theorem bytesOf_zero : bytesOf 0 = [] := by
  rw [bytesOf, dif_pos rfl]

theorem lt_pow_length_bytesOf (n : Nat) : n < 256 ^ (bytesOf n).length := by
  fun_induction bytesOf n with
  | case1 => decide
  | case2 n positive ih =>
    rw [List.length_cons, pow_succ]
    omega

/-- The bytes of the number are the given ones without their leading zeros. -/
theorem reverse_bytesOf_number (data : Bytes) :
    (bytesOf (number data)).reverse = data.dropWhile (· == 0) := by
  -- The last byte is the lowest one, and the number gives up its lowest byte first.
  induction data using List.reverseRecOn with
  | nil => exact congrArg _ bytesOf_zero
  | append_singleton data b ih =>
    have lt := b.toNat_lt
    rw [number_append_singleton, List.dropWhile_append, ← ih]
    by_cases zero : b.toNat + 256 * number data = 0
    · obtain ⟨last, front⟩ : b.toNat = 0 ∧ number data = 0 := by omega
      obtain rfl : b = 0 := UInt8.toNat_inj.mp last
      simp [front]
    · have low : UInt8.ofNat (b.toNat + 256 * number data) = b := by
        apply UInt8.toNat_inj.mp
        rw [UInt8.toNat_ofNat']
        omega
      have high : (b.toNat + 256 * number data) / 256 = number data := by omega
      rw [bytesOf_of_pos (Nat.pos_of_ne_zero zero), low, high, List.reverse_cons]
      rcases Nat.eq_zero_or_pos (number data) with front | front
      · have last : b ≠ 0 := by
          rintro rfl
          simp [front] at zero
        simp [front, last]
      · simp [bytesOf_of_pos front]

/-- Text that was written for bytes reads back as them. -/
theorem decode?_encode (data : Bytes) : decode? (encode data) = some data := by
  have digits : (encode data).toList.mapM digitValue? = some (values data) := by
    rw [toList_encode, mapM_digitValue? (values_lt data)]
  have zeros : List.replicate (data.takeWhile (· == 0)).length 0 = data.takeWhile (· == 0) := by
    refine (List.eq_replicate_of_mem fun b member => ?_).symm
    exact eq_of_beq (List.all_eq_true.mp List.all_takeWhile b member)
  rw [decode?, digits]
  simp [takeWhile_values, foldl_values, reverse_bytesOf_number, zeros]

/-- A byte takes more than one digit, but thirty-two of them no more than twelve besides. -/
theorem pow_le_pow_add_twelve : ∀ k ≤ 32, 256 ^ k ≤ 58 ^ (k + 12) := by
  decide

theorem length_values_le {data : Bytes} (short : data.length ≤ 32) :
    (values data).length ≤ data.length + 12 := by
  have split := congrArg List.length (List.takeWhile_append_dropWhile (p := (· == 0)) (l := data))
  rw [← reverse_bytesOf_number, List.length_append, List.length_reverse] at split
  have bytes := lt_pow_length_bytesOf (number data)
  have digits : (Nat.digits 58 (number data)).length ≤ (bytesOf (number data)).length + 12 :=
    (Nat.digits_length_le_iff (by decide) _).mpr
      (bytes.trans_le (pow_le_pow_add_twelve _ (by omega)))
  rw [values, List.length_append, List.length_replicate, List.length_reverse]
  omega

theorem mem_alphabet_of_mem_encode {data : Bytes} {c : Char} (member : c ∈ (encode data).toList) :
    c ∈ alphabet := by
  have listed : ∀ value < 58, digit value ∈ alphabet := by decide
  rw [toList_encode] at member
  obtain ⟨value, inside, rfl⟩ := List.mem_map.mp member
  exact listed value (values_lt data value inside)

theorem utf8ByteSize_of_mem_alphabet {chars : List Char} (digits : ∀ c ∈ chars, c ∈ alphabet) :
    (String.ofList chars).utf8ByteSize = chars.length := by
  have one : alphabet.all (·.utf8Size = 1) := by decide
  induction chars with
  | nil => rfl
  | cons c rest ih =>
    obtain ⟨head, tail⟩ := List.forall_mem_cons.mp digits
    rw [String.ofList_cons, String.utf8ByteSize_append, String.utf8ByteSize_singleton,
      of_decide_eq_true (List.all_eq_true.mp one c head), ih tail, List.length_cons, Nat.add_comm]

theorem utf8ByteSize_encode (data : Bytes) :
    (encode data).utf8ByteSize = (values data).length := by
  have listed : ∀ c ∈ (encode data).toList, c ∈ alphabet := fun _ => mem_alphabet_of_mem_encode
  have size := utf8ByteSize_of_mem_alphabet listed
  rwa [String.ofList_toList, toList_encode, List.length_map] at size

end PerpDex.Base58

namespace PerpDex.Address

/-- The text of an address reads back as the address. -/
theorem ofText?_toText (key : Address) : ofText? key.toText = some key := by
  have length : key.toBytes.length = 32 := Bytes.length_ofNat ..
  have short : key.toText.utf8ByteSize ≤ 44 := by
    have := Base58.length_values_le length.le
    rw [toText, Base58.utf8ByteSize_encode]
    omega
  rw [ofText?, if_neg (by omega), toText, Base58.decode?_encode]
  simp [length]

end PerpDex.Address
