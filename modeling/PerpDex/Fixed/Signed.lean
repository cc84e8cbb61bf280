import PerpDex.Bytes
import PerpDex.Decimal

/-! Signed binary fixed point numbers of 128 bits, 48 of them behind the point, and their decimals.
Neither direction ever overflows: reading keeps as many places as fit beside the integer part, and
writing saturates at the two ends of the range. -/
namespace PerpDex

/-- The number `bits / 2 ^ 48`. -/
structure SignedFixed where
  bits : BitVec 128
deriving DecidableEq, Inhabited

namespace SignedFixed

def least : SignedFixed := ⟨BitVec.intMin 128⟩

def greatest : SignedFixed := ⟨BitVec.intMax 128⟩

def ofWord (word : BitVec 128) : SignedFixed := ⟨word⟩

def integer (x : SignedFixed) : Int := x.bits.toInt / 2 ^ 48

/-- What lies above the integer part, in units of `2 ^ -48`. -/
def fraction (x : SignedFixed) : Nat := (x.bits.toInt % 2 ^ 48).toNat

theorem integer_mem (x : SignedFixed) : -(2 ^ 79) ≤ x.integer ∧ x.integer < 2 ^ 79 := by
  have upper := BitVec.two_mul_toInt_lt (x := x.bits)
  have lower := BitVec.le_two_mul_toInt (x := x.bits)
  unfold integer
  omega

theorem natAbs_integer_le (x : SignedFixed) : x.integer.natAbs ≤ 2 ^ 79 := by
  have := x.integer_mem
  omega

theorem fraction_lt (x : SignedFixed) : x.fraction < 2 ^ 48 := by
  unfold fraction
  omega

def unit : Decimal := Decimal.ofInt (2 ^ 48 : Nat) (by decide)

/-- The integer part plus the fraction, divided and then rounded to the places kept. -/
def toDecimal? (x : SignedFixed) : Option Decimal :=
  let integer := Decimal.ofInt x.integer (by have := x.natAbs_integer_le; omega)
  if x.fraction = 0 then some integer
  else do
    let fraction := Decimal.ofInt x.fraction (by have := x.fraction_lt; omega)
    let quotient ← fraction.div? unit
    integer.add? (quotient.roundPlaces (keptPlaces x.integer))

theorem toDecimal?_isSome (x : SignedFixed) : x.toDecimal?.isSome := by
  have integer := x.natAbs_integer_le
  have fraction := x.fraction_lt
  unfold toDecimal?
  dsimp only
  split
  · rfl
  · obtain ⟨quotient, found, bounded⟩ := Decimal.div?_natural (n := 2 ^ 48) (h := by decide)
      (Decimal.bounded_ofInt (n := x.fraction) (h := by omega) (c := 2 ^ 48) (by omega))
      (by decide) (by decide)
    simp only [unit, found, Option.bind_eq_bind, Option.bind_some]
    exact Decimal.add?_isSome (Decimal.bounded_ofInt integer) (bounded.roundPlaces _) (by decide)

def toDecimal (x : SignedFixed) : Decimal := x.toDecimal?.get x.toDecimal?_isSome

def saturate (n : Int) : BitVec 128 :=
  if n < -(2 ^ 127) then BitVec.intMin 128
  else if 2 ^ 127 ≤ n then BitVec.intMax 128
  else BitVec.ofInt 128 n

/-- The nearest fixed point number; numbers beyond the range give its ends. -/
def ofDecimal? (v : Decimal) : Option SignedFixed := do
  let fraction ← v.fraction?
  if 2 ^ 79 ≤ v.floor then some greatest
  else if v.floor < -(2 ^ 79) then some least
  else
    let units ← fraction.mul? unit
    some ⟨saturate (v.floor * 2 ^ 48 + units.round)⟩

theorem ofDecimal?_isSome (v : Decimal) : (ofDecimal? v).isSome := by
  obtain ⟨fraction, found, bounded⟩ := v.exists_fraction?
  unfold ofDecimal?
  simp only [found, Option.bind_eq_bind, Option.bind_some]
  split
  · rfl
  · split
    · rfl
    · have some := Decimal.mul?_isSome bounded
        (Decimal.bounded_ofInt (n := (2 ^ 48 : Nat)) (h := by decide) (c := 2 ^ 48) (by decide))
        (by decide)
      obtain ⟨units, product⟩ := Option.isSome_iff_exists.mp some
      simp only [unit, product, Option.bind_some]
      rfl

def ofDecimal (v : Decimal) : SignedFixed := (ofDecimal? v).get (ofDecimal?_isSome v)

def readAt (data : Bytes) (offset : Nat) : Decimal :=
  (ofWord (Bytes.word128At data offset)).toDecimal

end SignedFixed
end PerpDex
