import PerpDex.Decimal

/-! Decimals as plain text: digits with at most one point, no exponent. Writing gives the exact
value without trailing zeros and never a negative zero. -/
namespace PerpDex.Decimal

def dropTrailingZeros (digits : List Char) : List Char :=
  (digits.reverse.dropWhile (· == '0')).reverse

/-- The last `places` digits of `n`, with leading zeros. -/
def placeDigits : (places : Nat) → (n : Nat) → List Char → List Char
  | 0, _, rest => rest
  | places + 1, n, rest => placeDigits places (n / 10) (Nat.digitChar (n % 10) :: rest)

def toText (x : Decimal) : String :=
  let magnitude := x.coeff.natAbs
  let fraction := dropTrailingZeros (placeDigits x.scale magnitude [])
  (if x.coeff < 0 then "-" else "") ++ toString (magnitude / 10 ^ x.scale) ++
    (if fraction.isEmpty then "" else "." ++ String.ofList fraction)

def digitsValue? (digits : List Char) : Option Nat :=
  digits.foldlM (fun n c => if c.isDigit then some (n * 10 + (c.toNat - '0'.toNat)) else none) 0

/-- Reads an optional minus sign, digits and an optional point with more digits. -/
def ofText? (text : String) : Option Decimal := do
  let (negative, body) := match text.toList with
    | '-' :: rest => (true, rest)
    | all => (false, all)
  let whole := body.takeWhile (· != '.')
  let places := (body.dropWhile (· != '.')).drop 1
  if whole.isEmpty then none
  else
    let magnitude ← digitsValue? (whole ++ places)
    ofRatio? (if negative then -magnitude else magnitude) (10 ^ places.length)

end PerpDex.Decimal
