import PerpDex.Bytes
import PerpDex.Decimal

/-! Unsigned binary fixed point numbers of 8 or 16 bytes with the point in the middle, and their
decimals. Reading never overflows; writing turns negative numbers into zero and saturates at the
greatest number of the width. -/
namespace PerpDex

inductive FixedWidth where
  | narrow
  | wide
deriving DecidableEq

namespace FixedWidth

def bytes : FixedWidth → Nat
  | narrow => 8
  | wide => 16

/-- The number of bits behind the point, which is also the number before it. -/
def fractionBits : FixedWidth → Nat
  | narrow => 32
  | wide => 64

def ofBytes? (width : Nat) : Option FixedWidth :=
  if width = 8 then some narrow else if width = 16 then some wide else none

/-- The square root of the number of units in one. -/
def halfUnit (w : FixedWidth) : Nat := 2 ^ (w.fractionBits / 2)

theorem halfUnit_le (w : FixedWidth) : w.halfUnit ≤ 2 ^ 32 := by cases w <;> decide

theorem halfUnit_pos (w : FixedWidth) : 0 < w.halfUnit := by cases w <;> decide

end FixedWidth

/-- The number `raw / 2 ^ fractionBits`. -/
structure UnsignedFixed (w : FixedWidth) where
  raw : BitVec (8 * w.bytes)
deriving DecidableEq

namespace UnsignedFixed

variable {w : FixedWidth}

def ofBytes (data : Bytes) : UnsignedFixed w := ⟨BitVec.ofNat _ (Bytes.toNat data)⟩

def toBytes (x : UnsignedFixed w) : Bytes := Bytes.ofNat w.bytes x.raw.toNat

def greatest : UnsignedFixed w := ⟨BitVec.allOnes _⟩

def integer (x : UnsignedFixed w) : Nat := x.raw.toNat / 2 ^ w.fractionBits

def fraction (x : UnsignedFixed w) : Nat := x.raw.toNat % 2 ^ w.fractionBits

theorem integer_lt (x : UnsignedFixed w) : x.integer < 2 ^ 64 := by
  have bound := x.raw.isLt
  apply Nat.div_lt_of_lt_mul
  cases w <;> simp only [FixedWidth.bytes, FixedWidth.fractionBits] at * <;> omega

theorem fraction_lt (x : UnsignedFixed w) : x.fraction < 2 ^ 64 := by
  have bound := Nat.mod_lt x.raw.toNat (Nat.two_pow_pos w.fractionBits)
  cases w <;> simp only [FixedWidth.fractionBits, fraction] at * <;> omega

def halfUnit (w : FixedWidth) : Decimal :=
  Decimal.ofInt w.halfUnit (by have := w.halfUnit_le; omega)

/-- The integer part plus the fraction, divided twice by the half unit and then rounded to the
places kept. -/
def toDecimal? (x : UnsignedFixed w) : Option Decimal :=
  let integer := Decimal.ofInt x.integer (by have := x.integer_lt; omega)
  if x.fraction = 0 then some integer
  else do
    let fraction := Decimal.ofInt x.fraction (by have := x.fraction_lt; omega)
    let once ← fraction.div? (halfUnit w)
    let twice ← once.div? (halfUnit w)
    integer.add? (twice.roundPlaces (keptPlaces x.integer))

theorem toDecimal?_isSome (x : UnsignedFixed w) : x.toDecimal?.isSome := by
  have integer := x.integer_lt
  have fraction := x.fraction_lt
  have small := w.halfUnit_le
  unfold toDecimal?
  dsimp only
  split
  · rfl
  · obtain ⟨once, found, bounded⟩ := Decimal.div?_natural (n := w.halfUnit) (h := by omega)
      (Decimal.bounded_ofInt (n := x.fraction) (h := by omega) (c := 2 ^ 64) (by omega))
      w.halfUnit_pos (by decide)
    obtain ⟨twice, foundTwice, boundedTwice⟩ := Decimal.div?_natural (n := w.halfUnit)
      (h := by omega) bounded w.halfUnit_pos (by decide)
    simp only [halfUnit, found, foundTwice, Option.bind_eq_bind, Option.bind_some]
    exact Decimal.add?_isSome (Decimal.bounded_ofInt (c := 2 ^ 64) (by omega))
      (boundedTwice.roundPlaces _) (by decide)

def toDecimal (x : UnsignedFixed w) : Decimal := x.toDecimal?.get x.toDecimal?_isSome

/-- The nearest fixed point number, zero for negative numbers and `greatest` for too large ones. -/
def ofDecimal? (v : Decimal) : Option (UnsignedFixed w) :=
  let v := if v.coeff < 0 then Decimal.zero else v
  do
    let fraction ← v.fraction?
    if v.floor / 2 ^ w.fractionBits ≠ 0 then some greatest
    else
      let once ← fraction.mul? (halfUnit w)
      let units ← once.mul? (halfUnit w)
      let raw := (v.floor * 2 ^ w.fractionBits + units.round).toNat
      some ⟨BitVec.ofNat _ (min raw (2 ^ (8 * w.bytes) - 1))⟩

theorem ofDecimal?_isSome (v : Decimal) : (ofDecimal? v : Option (UnsignedFixed w)).isSome := by
  have small := w.halfUnit_le
  unfold ofDecimal?
  dsimp only
  generalize (if v.coeff < 0 then Decimal.zero else v) = v
  obtain ⟨fraction, found, bounded⟩ := v.exists_fraction?
  simp only [found, Option.bind_eq_bind, Option.bind_some]
  split
  · rfl
  · have half := Decimal.bounded_ofInt (n := w.halfUnit) (h := by omega) (c := 2 ^ 32) (by omega)
    have some := Decimal.mul?_isSome bounded half (by decide)
    obtain ⟨once, product⟩ := Option.isSome_iff_exists.mp some
    have boundedOnce := Decimal.bounded_mul? bounded half product
    have someTwice := Decimal.mul?_isSome boundedOnce half (by decide)
    obtain ⟨units, productTwice⟩ := Option.isSome_iff_exists.mp someTwice
    simp only [halfUnit, product, productTwice, Option.bind_some]
    rfl

def ofDecimal (v : Decimal) : UnsignedFixed w := (ofDecimal? v).get (ofDecimal?_isSome v)

end UnsignedFixed
end PerpDex
