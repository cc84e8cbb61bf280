import PerpDex.Bytes

/-! Base 58 text of byte strings: the digits of the bytes read as one number, highest first, after
one `1` for each leading zero byte. The digits leave out `0`, `I`, `O` and `l`. -/
namespace PerpDex.Base58

def alphabet : List Char := "123456789ABCDEFGHJKLMNPQRSTUVWXYZabcdefghijkmnopqrstuvwxyz".toList

def digit (value : Nat) : Char := alphabet.getD value '1'

def digitValue? (c : Char) : Option Nat := alphabet.findIdx? (· == c)

/-- Digits of `n` in front of `rest`; zero has none. -/
def digitsOf (n : Nat) (rest : List Char) : List Char :=
  if h : n = 0 then rest else digitsOf (n / 58) (digit (n % 58) :: rest)
termination_by n
decreasing_by omega

def number (data : Bytes) : Nat := Bytes.toNat data.reverse

def encode (data : Bytes) : String :=
  let zeros := data.takeWhile (· == 0)
  String.ofList (zeros.map (fun _ => '1') ++ digitsOf (number data) [])

/-- The base-256 digits of `n`, lowest first and without leading zeros. -/
def bytesOf (n : Nat) : Bytes :=
  if h : n = 0 then [] else UInt8.ofNat n :: bytesOf (n / 256)
termination_by n
decreasing_by omega

def decode? (text : String) : Option Bytes := do
  let digits ← text.toList.mapM digitValue?
  let zeros := digits.takeWhile (· == 0)
  let n := digits.foldl (fun n d => n * 58 + d) 0
  return zeros.map (fun _ => 0) ++ (bytesOf n).reverse

end PerpDex.Base58
