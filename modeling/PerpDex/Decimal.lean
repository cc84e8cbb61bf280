import PerpDex.Power

/-! Decimal numbers of 96 bits and at most 28 places. Every operation takes the exact rational
result and rounds it half to even at the largest number of places that fits; it has no result
where not even the nearest integer fits. -/
namespace PerpDex

/-- The integer nearest to `n / d`; of two equally near the even one. -/
def roundHalfEven (n : Int) (d : Nat) : Int :=
  let q := n / d
  let r := n % d
  if 2 * r < d then q
  else if (d : Int) < 2 * r then q + 1
  else if q % 2 = 0 then q else q + 1

theorem roundHalfEven_le {n : Int} {d : Nat} {c : Int} (pos : 0 < d) (h : n ≤ c * d) :
    roundHalfEven n d ≤ c := by
  have split := Int.mul_ediv_add_emod n d
  have nonneg := Int.emod_nonneg n (b := d) (by omega)
  have le : n / d ≤ c := Int.le_of_mul_le_mul_right (a := (d : Int))
    (by rw [Int.mul_comm]; omega) (by omega)
  have lt : 0 < n % d → n / d < c := fun positive =>
    Int.lt_of_mul_lt_mul_right (a := (d : Int)) (by rw [Int.mul_comm]; omega) (by omega)
  unfold roundHalfEven
  dsimp only
  split <;> rename_i small
  · exact le
  · have := lt (by omega)
    split
    · omega
    · split <;> omega

theorem le_roundHalfEven {n : Int} {d : Nat} {c : Int} (pos : 0 < d) (h : c * d ≤ n) :
    c ≤ roundHalfEven n d := by
  have : c ≤ n / d := (Int.le_ediv_iff_mul_le (by omega)).mpr h
  unfold roundHalfEven
  dsimp only
  split
  · omega
  · split
    · omega
    · split <;> omega

/-- The number `coeff / 10 ^ scale`. -/
structure Decimal where
  coeff : Int
  scale : Nat
  coeff_lt : coeff.natAbs < 2 ^ 96 := by decide
  scale_le : scale ≤ 28 := by decide

namespace Decimal

def value (x : Decimal) : Rat := mkRat x.coeff (10 ^ x.scale)

instance : Inhabited Decimal := ⟨⟨0, 0, by decide, by decide⟩⟩

def zero : Decimal := ⟨0, 0, by decide, by decide⟩

def one : Decimal := ⟨1, 0, by decide, by decide⟩

/-- Two decimals are equal as numbers; the number of places written does not count. -/
instance : BEq Decimal := ⟨fun x y => x.coeff * 10 ^ y.scale == y.coeff * 10 ^ x.scale⟩

def ofInt (n : Int) (h : n.natAbs < 2 ^ 96) : Decimal := ⟨n, 0, h, by omega⟩

/-- `n / d` rounded to the largest of `scale`, `scale - 1`, …, 0 places at which it fits. -/
def fit (n : Int) (d : Nat) : (scale : Nat) → scale ≤ 28 → Option Decimal
  | 0, _ =>
    if fits : (roundHalfEven n d).natAbs < 2 ^ 96 then some ⟨_, 0, fits, by omega⟩ else none
  | scale + 1, le =>
    if fits : (roundHalfEven (n * 10 ^ (scale + 1)) d).natAbs < 2 ^ 96 then
      some ⟨_, scale + 1, fits, le⟩
    else fit n d scale (by omega)

def ofRatio? (n : Int) (d : Nat) : Option Decimal := fit n d 28 (by omega)

def add? (x y : Decimal) : Option Decimal :=
  ofRatio? (x.coeff * 10 ^ y.scale + y.coeff * 10 ^ x.scale) (10 ^ (x.scale + y.scale))

def sub? (x y : Decimal) : Option Decimal :=
  ofRatio? (x.coeff * 10 ^ y.scale - y.coeff * 10 ^ x.scale) (10 ^ (x.scale + y.scale))

def mul? (x y : Decimal) : Option Decimal :=
  ofRatio? (x.coeff * y.coeff) (10 ^ (x.scale + y.scale))

def div? (x y : Decimal) : Option Decimal :=
  if y.coeff = 0 then none
  else ofRatio? (x.coeff * 10 ^ y.scale * y.coeff.sign) (10 ^ x.scale * y.coeff.natAbs)

def floor (x : Decimal) : Int := x.coeff / (10 ^ x.scale : Nat)

def trunc (x : Decimal) : Int := x.coeff.tdiv (10 ^ x.scale : Nat)

/-- The nearest integer; halves go to the even one. -/
def round (x : Decimal) : Int := roundHalfEven x.coeff (10 ^ x.scale)

theorem natAbs_floor_lt (x : Decimal) : x.floor.natAbs < 2 ^ 96 := by
  have limit := x.coeff_lt
  have one : (1 : Int) ≤ (10 ^ x.scale : Nat) := by
    have := Nat.pow_pos (n := x.scale) (show 0 < 10 by omega)
    omega
  have lower : -(2 ^ 96 - 1 : Int) ≤ x.floor := by
    apply (Int.le_ediv_iff_mul_le (by omega)).mpr
    have := Int.mul_le_mul_of_nonneg_left one (show (0 : Int) ≤ 2 ^ 96 - 1 by decide)
    rw [Int.neg_mul]
    omega
  have upper : x.floor ≤ (2 ^ 96 - 1 : Int) := by
    apply Int.ediv_le_of_le_mul (by omega)
    have := Int.mul_le_mul_of_nonneg_left one (show (0 : Int) ≤ 2 ^ 96 - 1 by decide)
    omega
  omega

/-- Rounding half to even to at most `places` places. -/
def roundPlaces (places : Nat) (x : Decimal) : Decimal :=
  if h : x.scale ≤ places then x
  else ⟨roundHalfEven x.coeff (10 ^ (x.scale - places)), places, by
    have limit := x.coeff_lt
    have pos := Nat.pow_pos (n := x.scale - places) (show 0 < 10 by omega)
    have grow := Int.mul_le_mul_of_nonneg_left
      (show (1 : Int) ≤ (10 ^ (x.scale - places) : Nat) by omega)
      (show (0 : Int) ≤ 2 ^ 96 - 1 by decide)
    have upper := roundHalfEven_le (n := x.coeff) (c := 2 ^ 96 - 1) pos (by omega)
    have lower := le_roundHalfEven (n := x.coeff) (c := -(2 ^ 96 - 1)) pos
      (by rw [Int.neg_mul]; omega)
    omega, by have := x.scale_le; omega⟩

theorem natAbs_roundHalfEven_le {n : Int} {d c : Nat} (pos : 0 < d)
    (h : n.natAbs ≤ c * d) : (roundHalfEven n d).natAbs ≤ c := by
  have cast : ((c * d : Nat) : Int) = (c : Int) * d := Int.natCast_mul c d
  have upper := roundHalfEven_le (n := n) (c := c) pos (by omega)
  have lower := le_roundHalfEven (n := n) (c := -(c : Int)) pos
    (by rw [Int.neg_mul]; omega)
  omega

theorem fit_isSome {n : Int} {d scale : Nat} (le : scale ≤ 28) (pos : 0 < d)
    (h : n.natAbs ≤ 2 ^ 95 * d) : (fit n d scale le).isSome := by
  induction scale with
  | zero =>
    have := natAbs_roundHalfEven_le pos h
    unfold fit
    rw [dif_pos (by omega)]
    rfl
  | succ scale ih =>
    unfold fit
    split
    · rfl
    · exact ih _

/-- Numbers of up to 95 bits always have a decimal. -/
theorem ofRatio?_isSome {n : Int} {d : Nat} (pos : 0 < d) (h : n.natAbs ≤ 2 ^ 95 * d) :
    (ofRatio? n d).isSome :=
  fit_isSome _ pos h

def Bounded (c : Nat) (x : Decimal) : Prop := x.coeff.natAbs ≤ c * 10 ^ x.scale

theorem bounded_of_fit {n : Int} {d scale c : Nat} {le : scale ≤ 28} {x : Decimal}
    (pos : 0 < d) (h : n.natAbs ≤ c * d) (found : fit n d scale le = some x) :
    Bounded c x := by
  have at_scale (s : Nat) : (roundHalfEven (n * 10 ^ s) d).natAbs ≤ c * 10 ^ s := by
    apply natAbs_roundHalfEven_le pos
    have power : ((10 : Int) ^ s).natAbs = 10 ^ s := by simp [Int.natAbs_pow]
    rw [Int.natAbs_mul, power, Nat.mul_right_comm]
    exact Nat.mul_le_mul_right _ h
  induction scale with
  | zero =>
    unfold fit at found
    split at found
    · cases found
      simpa [Bounded] using at_scale 0
    · simp at found
  | succ scale ih =>
    unfold fit at found
    split at found
    · cases found
      exact at_scale (scale + 1)
    · exact ih found

/-- Rounding does not leave an interval with integer ends. -/
theorem bounded_of_ofRatio? {n : Int} {d c : Nat} {x : Decimal} (pos : 0 < d)
    (h : n.natAbs ≤ c * d) (found : ofRatio? n d = some x) : Bounded c x :=
  bounded_of_fit pos h found

theorem Bounded.roundPlaces {c : Nat} {x : Decimal} (h : Bounded c x) (places : Nat) :
    Bounded c (x.roundPlaces places) := by
  unfold Decimal.roundPlaces
  split
  · exact h
  · rename_i more
    have whole : places + (x.scale - places) = x.scale := by omega
    apply natAbs_roundHalfEven_le (Nat.pow_pos (by omega))
    rw [Nat.mul_assoc, ← Nat.pow_add, whole]
    exact h

theorem bounded_ofInt {n : Int} {h : n.natAbs < 2 ^ 96} {c : Nat} (le : n.natAbs ≤ c) :
    Bounded c (ofInt n h) := by
  simpa [Bounded, ofInt] using le

theorem sum_le {x y : Decimal} {a b : Nat} (hx : Bounded a x) (hy : Bounded b y) :
    x.coeff.natAbs * 10 ^ y.scale + y.coeff.natAbs * 10 ^ x.scale ≤
      (a + b) * 10 ^ (x.scale + y.scale) := by
  have first := Nat.mul_le_mul_right (10 ^ y.scale) hx
  have second := Nat.mul_le_mul_right (10 ^ x.scale) hy
  rw [Nat.mul_assoc, ← Nat.pow_add] at first
  rw [Nat.mul_assoc, ← Nat.pow_add, Nat.add_comm y.scale] at second
  rw [Nat.add_mul]
  omega

theorem natAbs_add_coeff_le {x y : Decimal} {a b : Nat} (hx : Bounded a x) (hy : Bounded b y) :
    (x.coeff * 10 ^ y.scale + y.coeff * 10 ^ x.scale).natAbs ≤
      (a + b) * 10 ^ (x.scale + y.scale) := by
  have := sum_le hx hy
  have := natAbs_mul_pow x.coeff y.scale
  have := natAbs_mul_pow y.coeff x.scale
  omega

theorem add?_isSome {x y : Decimal} {a b : Nat} (hx : Bounded a x) (hy : Bounded b y)
    (small : a + b ≤ 2 ^ 95) : (add? x y).isSome :=
  ofRatio?_isSome (Nat.pow_pos (by omega))
    (Nat.le_trans (natAbs_add_coeff_le hx hy) (Nat.mul_le_mul_right _ small))

theorem natAbs_mul_coeff_le {x y : Decimal} {a b : Nat} (hx : Bounded a x) (hy : Bounded b y) :
    (x.coeff * y.coeff).natAbs ≤ a * b * 10 ^ (x.scale + y.scale) := by
  have := Nat.mul_le_mul hx hy
  rw [Int.natAbs_mul, Nat.pow_add]
  rw [Nat.mul_mul_mul_comm] at this
  exact this

theorem mul?_isSome {x y : Decimal} {a b : Nat} (hx : Bounded a x) (hy : Bounded b y)
    (small : a * b ≤ 2 ^ 95) : (mul? x y).isSome :=
  ofRatio?_isSome (Nat.pow_pos (by omega))
    (Nat.le_trans (natAbs_mul_coeff_le hx hy) (Nat.mul_le_mul_right _ small))

theorem bounded_mul? {x y z : Decimal} {a b : Nat} (hx : Bounded a x) (hy : Bounded b y)
    (found : mul? x y = some z) : Bounded (a * b) z :=
  bounded_of_ofRatio? (Nat.pow_pos (by omega)) (natAbs_mul_coeff_le hx hy) found

theorem natAbs_div_coeff_le {x : Decimal} {a n : Nat} (hx : Bounded a x) (pos : 0 < n) :
    (x.coeff * 10 ^ 0 * (n : Int).sign).natAbs ≤ a * (10 ^ x.scale * n) := by
  have grow : a * 10 ^ x.scale ≤ a * (10 ^ x.scale * n) :=
    Nat.mul_le_mul_left _ (Nat.le_mul_of_pos_right _ pos)
  rw [Int.sign_eq_one_of_pos (by omega)]
  simp only [Int.pow_zero, Int.mul_one]
  exact Nat.le_trans hx grow

/-- Dividing by a positive integer makes no number larger. -/
theorem div?_natural {x : Decimal} {a n : Nat} {h : (n : Int).natAbs < 2 ^ 96} (hx : Bounded a x)
    (pos : 0 < n) (small : a ≤ 2 ^ 95) : ∃ y, div? x (ofInt n h) = some y ∧ Bounded a y := by
  have nonzero : n ≠ 0 := by omega
  have positive : 0 < 10 ^ x.scale * n := Nat.mul_pos (Nat.pow_pos (by omega)) pos
  have limit := natAbs_div_coeff_le hx pos
  have some := ofRatio?_isSome positive (Nat.le_trans limit (Nat.mul_le_mul_right _ small))
  obtain ⟨y, found⟩ := Option.isSome_iff_exists.mp some
  refine ⟨y, ?_, bounded_of_ofRatio? positive limit found⟩
  simpa [div?, ofInt, nonzero] using found

/-- What lies above the floor of a number, which is less than one. -/
def fraction? (x : Decimal) : Option Decimal := sub? x (ofInt x.floor x.natAbs_floor_lt)

theorem natAbs_fraction_coeff_le (x : Decimal) :
    (x.coeff * 10 ^ 0 - x.floor * 10 ^ x.scale).natAbs ≤ 1 * 10 ^ (x.scale + 0) := by
  have split := Int.mul_ediv_add_emod x.coeff (10 ^ x.scale : Nat)
  have pos := Nat.pow_pos (n := x.scale) (show 0 < 10 by omega)
  have nonneg := Int.emod_nonneg x.coeff (b := (10 ^ x.scale : Nat)) (by omega)
  have lt := Int.emod_lt_of_pos x.coeff (b := (10 ^ x.scale : Nat)) (by omega)
  have power : ((10 ^ x.scale : Nat) : Int) = 10 ^ x.scale := by simp
  have product : x.floor * 10 ^ x.scale =
      (10 ^ x.scale : Nat) * (x.coeff / (10 ^ x.scale : Nat)) := by
    rw [← power, Int.mul_comm]
    rfl
  rw [product]
  simp only [Int.pow_zero, Int.mul_one, Nat.add_zero]
  omega

theorem exists_fraction? (x : Decimal) : ∃ y, x.fraction? = some y ∧ Bounded 1 y := by
  have pos : 0 < 10 ^ (x.scale + 0) := Nat.pow_pos (by omega)
  have limit := natAbs_fraction_coeff_le x
  have some := ofRatio?_isSome pos (Nat.le_trans limit (Nat.mul_le_mul_right _ (by decide)))
  obtain ⟨y, found⟩ := Option.isSome_iff_exists.mp some
  exact ⟨y, found, bounded_of_ofRatio? pos limit found⟩

end Decimal

def digitCount (n : Nat) : Nat :=
  if h : n = 0 then 0 else digitCount (n / 10) + 1
termination_by n
decreasing_by omega

/-- The places kept beside an integer part: as many as 28 digits leave, at most 20. -/
def keptPlaces (integer : Int) : Nat := min 20 (28 - digitCount integer.natAbs)

end PerpDex
