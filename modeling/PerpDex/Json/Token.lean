import PerpDex.Json.Number

/-! The tokens of JSON texts. Scanning refuses control characters and lone surrogates in strings,
and numbers that are out of range. -/
namespace PerpDex.Json

inductive Token where
  | openObject
  | closeObject
  | openArray
  | closeArray
  | colon
  | comma
  | null
  | bool (b : Bool)
  /-- A number, with its value if it is an integer. -/
  | number (integer? : Option Int)
  | string (text : String)

/-- A part of a string: a character, or the 16-bit unit of an escape. -/
inductive Piece where
  | char (c : Char)
  | unit (n : Nat)

namespace Piece

def isHigh (n : Nat) : Bool := 0xD800 ≤ n && n < 0xDC00

def isLow (n : Nat) : Bool := 0xDC00 ≤ n && n < 0xE000

/-- Units are characters of their own or pairs of a high and a low surrogate. -/
def resolve? : List Piece → Option (List Char)
  | [] => some []
  | char c :: rest => (resolve? rest).map (c :: ·)
  | unit high :: unit low :: rest =>
    if isHigh high && isLow low then
      (resolve? rest).map (Char.ofNat (0x10000 + (high - 0xD800) * 0x400 + (low - 0xDC00)) :: ·)
    else if isHigh high || isLow high then none
    else (resolve? (unit low :: rest)).map (Char.ofNat high :: ·)
  | unit n :: rest =>
    if isHigh n || isLow n then none else (resolve? rest).map (Char.ofNat n :: ·)

end Piece

namespace Token

def hexDigit? (c : Char) : Option Nat :=
  if c.isDigit then some (c.toNat - '0'.toNat)
  else if 'a' ≤ c ∧ c ≤ 'f' then some (c.toNat - 'a'.toNat + 10)
  else if 'A' ≤ c ∧ c ≤ 'F' then some (c.toNat - 'A'.toNat + 10)
  else none

def escaped? (c : Char) : Option Char :=
  match c with
  | '"' | '\\' | '/' => some c
  | 'b' => some (Char.ofNat 8)
  | 'f' => some (Char.ofNat 12)
  | 'n' => some '\n'
  | 'r' => some '\r'
  | 't' => some '\t'
  | _ => none

/-- Reads up to the closing quote: the pieces before it, and the text behind it. -/
def pieces? : List Char → Option (List Piece × List Char)
  | [] => none
  | '"' :: rest => some ([], rest)
  | '\\' :: 'u' :: a :: b :: c :: d :: rest => do
    let n := ((← hexDigit? a) * 16 + (← hexDigit? b)) * 256 + (← hexDigit? c) * 16 + (← hexDigit? d)
    let (pieces, rest) ← pieces? rest
    return (.unit n :: pieces, rest)
  | '\\' :: c :: rest => do
    let c ← escaped? c
    let (pieces, rest) ← pieces? rest
    return (.char c :: pieces, rest)
  | c :: rest =>
    if c.toNat < 0x20 ∨ c = '\\' then none
    else do
      let (pieces, rest) ← pieces? rest
      return (.char c :: pieces, rest)

theorem length_of_pieces? {text rest : List Char} {pieces : List Piece}
    (h : pieces? text = some (pieces, rest)) : rest.length < text.length := by
  fun_induction pieces? text generalizing pieces rest with
  | case1 => simp at h
  | case2 => simp_all
  | case3 a b c d text ih =>
    simp only [Option.bind_eq_bind, Option.bind_eq_some_iff] at h
    obtain ⟨_, _, _, _, _, _, _, _, ⟨_, _⟩, found, h⟩ := h
    have := ih found
    cases h
    simp only [List.length_cons]
    omega
  | case4 c text _ ih =>
    simp only [Option.bind_eq_bind, Option.bind_eq_some_iff] at h
    obtain ⟨_, _, ⟨_, _⟩, found, h⟩ := h
    have := ih found
    cases h
    simp only [List.length_cons]
    omega
  | case5 => simp at h
  | case6 =>
    rename_i ih
    simp only [Option.bind_eq_bind, Option.bind_eq_some_iff] at h
    obtain ⟨⟨_, _⟩, found, h⟩ := h
    have := ih found
    cases h
    simp only [List.length_cons]
    omega

def isBlank (c : Char) : Bool := c == ' ' || c == '\n' || c == '\t' || c == '\r'

def mark? (c : Char) : Option Token :=
  match c with
  | '\x7b' => some openObject
  | '\x7d' => some closeObject
  | '[' => some openArray
  | ']' => some closeArray
  | ':' => some colon
  | ',' => some comma
  | _ => none

def isWordChar (c : Char) : Bool := c.isAlphanum || c == '-' || c == '+' || c == '.'

def ofWord? (word : List Char) : Option Token :=
  if word = "null".toList then some null
  else if word = "true".toList then some (bool true)
  else if word = "false".toList then some (bool false)
  else
    match Literal.read? word with
    | some literal => if literal.inRange then some (number literal.integer?) else none
    | none => none

def scan? (text : List Char) : Option (List Token) :=
  match text with
  | [] => some []
  | c :: rest =>
    if isBlank c then scan? rest
    else match mark? c with
      | some token => (scan? rest).map (token :: ·)
      | none =>
        if c = '"' then
          match _found : pieces? rest with
          | none => none
          | some (pieces, after) => do
            let chars ← Piece.resolve? pieces
            let tokens ← scan? after
            return string (String.ofList chars) :: tokens
        else if isWordChar c then do
          let token ← ofWord? (c :: rest.takeWhile isWordChar)
          let tokens ← scan? (rest.dropWhile isWordChar)
          return token :: tokens
        else none
termination_by text.length
decreasing_by
  · simp
  · simp
  · have := length_of_pieces? _found
    simp only [List.length_cons]
    omega
  · have := (List.dropWhile_sublist isWordChar (l := rest)).length_le
    simp only [List.length_cons]
    omega

end Token
end PerpDex.Json
