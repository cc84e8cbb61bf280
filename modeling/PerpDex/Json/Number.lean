import PerpDex.Decimal

/-! The numbers of JSON texts: their grammar, and the rule that a number has to lie in the range of
64-bit floating point numbers. The rule looks at a significand of 64 bits and a power of ten, each
rounded to the 53 bits of a floating point number before they are multiplied. -/
namespace PerpDex.Json

/-- The parts of a number: the digits before and behind the point and the power of ten that follows
them, below zero if `negative`. A number without point and exponent is `plain`. -/
structure Literal where
  negative : Bool
  plain : Bool
  whole : List Char
  places : List Char
  exponent : Int

namespace Literal

def digit (c : Char) : Nat := c.toNat - '0'.toNat

def value (digits : List Char) : Nat := digits.foldl (fun n c => n * 10 + digit c) 0

/-- Zero stands alone, and no other number starts with it. -/
def isWhole (digits : List Char) : Bool :=
  match digits with
  | [] => false
  | ['0'] => true
  | '0' :: _ => false
  | all => all.all Char.isDigit

def exponent? (text : List Char) : Option Int :=
  let (negative, digits) := match text with
    | '-' :: rest => (true, rest)
    | '+' :: rest => (false, rest)
    | rest => (false, rest)
  if digits.isEmpty ∨ ¬digits.all Char.isDigit then none
  else some (if negative then -value digits else value digits)

def isMark (c : Char) : Bool := c == 'e' || c == 'E'

def read? (text : List Char) : Option Literal := do
  let (negative, text) := match text with
    | '-' :: rest => (true, rest)
    | rest => (false, rest)
  let mantissa := text.takeWhile (!isMark ·)
  let exponent ← match text.dropWhile (!isMark ·) with
    | [] => some none
    | _ :: rest => (exponent? rest).map some
  let whole := mantissa.takeWhile (· != '.')
  let places ← match mantissa.dropWhile (· != '.') with
    | [] => some none
    | _ :: places => if places.isEmpty ∨ ¬places.all Char.isDigit then none else some (some places)
  if !isWhole whole then none
  else
    return {
      negative
      plain := exponent.isNone && places.isNone
      whole
      places := places.getD []
      exponent := exponent.getD 0 }

/-- Puts digits behind those of `n` while the number keeps within 64 bits, and gives the digits that
are left over. -/
def append (n : Nat) : List Char → Nat × List Char
  | [] => (n, [])
  | c :: rest =>
    if n * 10 + digit c < 2 ^ 64 then append (n * 10 + digit c) rest else (n, c :: rest)

/-- The significand and the power of ten it is multiplied by. Digits that are left over before the
point or behind it count as zeros. -/
def magnitude (l : Literal) : Nat × Int :=
  let (n, wholeLeft) := append 0 l.whole
  let (n, placesLeft) := append n l.places
  (n, l.exponent + wholeLeft.length - l.places.length + placesLeft.length)

/-- The nearest number with at most 53 significant bits; of two equally near the even one. -/
def nearest (n : Nat) : Nat :=
  let unit := 2 ^ (n.log2 + 1 - 53)
  (roundHalfEven n unit).toNat * unit

def limit : Nat := 2 ^ 1024 - 2 ^ 970

/-- The greatest power of ten below `limit`. -/
def maxExponent : Int := 308

/-- Whether the product of the rounded significand and the rounded power of ten is below `limit`.
No significand is too large for a negative power. -/
def inRange (l : Literal) : Bool :=
  let (significand, exponent) := l.magnitude
  significand == 0 || exponent < 0 ||
    (exponent ≤ maxExponent && nearest significand * nearest (10 ^ exponent.toNat) < limit)

/-- The integer that is written; only plain numbers of 64 bits, signed or unsigned, are integers,
and negative zero is none. -/
def integer? (l : Literal) : Option Int :=
  let n := value l.whole
  if ¬l.plain then none
  else if l.negative then
    if 0 < n ∧ n ≤ 2 ^ 63 then some (-n) else none
  else if n < 2 ^ 64 then some n else none

end Literal
end PerpDex.Json
