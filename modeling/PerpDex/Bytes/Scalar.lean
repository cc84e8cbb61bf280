import PerpDex.Error

/-! Single values as accounts store them: integers of fixed width, and flags of one byte. -/
namespace PerpDex

inductive Scalar where
  | u32
  | u64
  | i64
  | u128
  | i128
  | flag
deriving DecidableEq

namespace Scalar

def name : Scalar → String
  | u32 => "u32"
  | u64 => "u64"
  | i64 => "i64"
  | u128 => "u128"
  | i128 => "i128"
  | flag => "flag"

def width : Scalar → Nat
  | u32 => 4
  | u64 | i64 => 8
  | u128 | i128 => 16
  | flag => 1

inductive Value where
  | integer (n : Int)
  | flag (b : Bool)
deriving DecidableEq

/-- The value of bytes of the right number. Signed integers are in two's complement. -/
def read (data : Bytes) : Scalar → Value
  | u32 | u64 | u128 => .integer (Bytes.toNat data)
  | i64 => .integer (BitVec.ofNat 64 (Bytes.toNat data)).toInt
  | i128 => .integer (BitVec.ofNat 128 (Bytes.toNat data)).toInt
  | flag => .flag (Bytes.toNat data != 0)

def decode (scalar : Scalar) (data : Bytes) : Except Error Value := do
  checkSize scalar.name scalar.width data
  return read data scalar

/-- The bytes of a value; an integer is taken modulo the width. -/
def encode (scalar : Scalar) : Value → Bytes
  | .integer n => Bytes.ofNat scalar.width (n % 256 ^ scalar.width).toNat
  | .flag b => Bytes.ofFlag b

end Scalar
end PerpDex
