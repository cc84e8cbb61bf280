import PerpDex.Bytes

/-! Base 64 text of byte strings: three bytes become four digits, and a last piece of one or two
bytes is filled up with `=`. Reading is strict: the length is a multiple of four, the padding is
complete, and the bits it stands for are zero, so every byte string has one text. -/
namespace PerpDex.Base64

def alphabet : List Char :=
  "ABCDEFGHIJKLMNOPQRSTUVWXYZabcdefghijklmnopqrstuvwxyz0123456789+/".toList

def digit (value : Nat) : Char := alphabet.getD value 'A'

def digitValue? (c : Char) : Option Nat :=
  if 'A' ≤ c ∧ c ≤ 'Z' then some (c.toNat - 'A'.toNat)
  else if 'a' ≤ c ∧ c ≤ 'z' then some (c.toNat - 'a'.toNat + 26)
  else if '0' ≤ c ∧ c ≤ '9' then some (c.toNat - '0'.toNat + 52)
  else if c = '+' then some 62
  else if c = '/' then some 63
  else none

def encodeList : Bytes → List Char
  | [] => []
  | [a] =>
    let n := a.toNat * 16
    [digit (n / 64), digit (n % 64), '=', '=']
  | [a, b] =>
    let n := (a.toNat * 256 + b.toNat) * 4
    [digit (n / 4096), digit (n / 64 % 64), digit (n % 64), '=']
  | a :: b :: c :: rest =>
    let n := (a.toNat * 256 + b.toNat) * 256 + c.toNat
    digit (n / 262144) :: digit (n / 4096 % 64) :: digit (n / 64 % 64) :: digit (n % 64) ::
      encodeList rest

def encode (data : Bytes) : String := String.ofList (encodeList data)

/-- The bytes of the last four digits, which alone may be padded. -/
def decodeLast? (a b c d : Char) : Option Bytes := do
  let x := (← digitValue? a) * 64 + (← digitValue? b)
  if c = '=' ∧ d = '=' then
    if x % 16 = 0 then some [UInt8.ofNat (x / 16)] else none
  else
    let y := x * 64 + (← digitValue? c)
    if d = '=' then
      if y % 4 = 0 then some [UInt8.ofNat (y / 1024), UInt8.ofNat (y / 4)] else none
    else
      let z := y * 64 + (← digitValue? d)
      some [UInt8.ofNat (z / 65536), UInt8.ofNat (z / 256), UInt8.ofNat z]

def decodeList? : List Char → Option Bytes
  | [] => some []
  | [a, b, c, d] => decodeLast? a b c d
  | a :: b :: c :: d :: rest => do
    let x := (← digitValue? a) * 64 + (← digitValue? b)
    let z := (x * 64 + (← digitValue? c)) * 64 + (← digitValue? d)
    let tail ← decodeList? rest
    return UInt8.ofNat (z / 65536) :: UInt8.ofNat (z / 256) :: UInt8.ofNat z :: tail
  | _ => none

def decode? (text : String) : Option Bytes := decodeList? text.toList

end PerpDex.Base64
