/-! Powers, in which bounds and scales are stated. Raising a natural number or an integer to a power
is always the core library's operation, also where other ways to take powers are in scope. -/
namespace PerpDex

@[default_instance high]
instance (priority := high) corePow {α : Type u} [NatPow α] : Pow α Nat := instPowNat

theorem natAbs_mul_pow (n : Int) (k : Nat) : (n * 10 ^ k).natAbs = n.natAbs * 10 ^ k := by
  simp [Int.natAbs_mul, Int.natAbs_pow]

end PerpDex
