import PerpDex.Bytes

/-! Reading bytes as UTF-8 text that may be damaged: every maximal piece of a sequence that cannot
be completed becomes one replacement character, and reading goes on behind it. -/
namespace PerpDex.Utf8

def replacement : Char := '\uFFFD'

/-- The length of a sequence that starts with `lead`, the bits `lead` contributes, and the least
and greatest second byte; these rule out overlong forms, surrogates and values above U+10FFFF. -/
def sequence? (lead : UInt8) : Option (Nat × Nat × UInt8 × UInt8) :=
  if 0xC2 ≤ lead ∧ lead ≤ 0xDF then some (2, lead.toNat - 0xC0, 0x80, 0xBF)
  else if lead = 0xE0 then some (3, 0, 0xA0, 0xBF)
  else if lead = 0xED then some (3, 13, 0x80, 0x9F)
  else if 0xE1 ≤ lead ∧ lead ≤ 0xEF then some (3, lead.toNat - 0xE0, 0x80, 0xBF)
  else if lead = 0xF0 then some (4, 0, 0x90, 0xBF)
  else if 0xF1 ≤ lead ∧ lead ≤ 0xF3 then some (4, lead.toNat - 0xF0, 0x80, 0xBF)
  else if lead = 0xF4 then some (4, 4, 0x80, 0x8F)
  else none

/-- Takes up to `count` bytes that continue a sequence, the next of them between `low` and `high`:
the code point if all are there, and the bytes behind them. -/
def continued : (count : Nat) → (acc : Nat) → (low high : UInt8) → Bytes → Option Nat × Bytes
  | 0, acc, _, _, data => (some acc, data)
  | _ + 1, _, _, _, [] => (none, [])
  | count + 1, acc, low, high, b :: rest =>
    if low ≤ b ∧ b ≤ high then continued count (acc * 64 + (b.toNat - 0x80)) 0x80 0xBF rest
    else (none, b :: rest)

theorem length_continued (count acc : Nat) (low high : UInt8) (data : Bytes) :
    (continued count acc low high data).2.length ≤ data.length := by
  induction count generalizing acc low high data with
  | zero => simp [continued]
  | succ count ih =>
    cases data with
    | nil => simp [continued]
    | cons b rest =>
      unfold continued
      split
      · have := ih (acc * 64 + (b.toNat - 0x80)) 0x80 0xBF rest
        simp only [List.length_cons]
        omega
      · simp

/-- The first character, if there is one, and the bytes behind it. -/
def next (lead : UInt8) (rest : Bytes) : Char × Bytes :=
  if lead < 0x80 then (Char.ofNat lead.toNat, rest)
  else match sequence? lead with
    | none => (replacement, rest)
    | some (length, bits, low, high) =>
      let (code?, rest) := continued (length - 1) bits low high rest
      ((code?.map Char.ofNat).getD replacement, rest)

theorem length_next (lead : UInt8) (rest : Bytes) : (next lead rest).2.length ≤ rest.length := by
  unfold next
  split
  · simp
  · split
    · simp
    · exact length_continued ..

def decodeList : Bytes → List Char
  | [] => []
  | lead :: rest =>
    let step := next lead rest
    step.1 :: decodeList step.2
termination_by data => data.length
decreasing_by
  have := length_next lead rest
  simp only [List.length_cons]
  omega

def decode (data : Bytes) : String := String.ofList (decodeList data)

end PerpDex.Utf8
