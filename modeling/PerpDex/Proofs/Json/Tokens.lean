import Mathlib.Data.List.Chain
import PerpDex.Proofs.Json.Numerals
import PerpDex.Json.Value

/-! Tokens that are written without blanks and escapes are scanned back, as long as no two words stand
side by side. The words are the numbers and literals. -/
namespace PerpDex.Json.Token

variable {tokens : List Token}

def isWord : Token → Bool
  | null | bool _ | number _ => true
  | _ => false

def write : Token → List Char
  | openObject => ['\x7b']
  | closeObject => ['\x7d']
  | openArray => ['[']
  | closeArray => [']']
  | colon => [':']
  | comma => [',']
  | null => "null".toList
  | bool b => if b then "true".toList else "false".toList
  | number integer? => Nat.toDigits 10 (integer?.getD 0).toNat
  | string text => '"' :: (text.toList ++ ['"'])

/-- A character that stands for itself in a string. -/
def isPlain (c : Char) : Bool := 0x20 ≤ c.toNat && c != '"' && c != '\\'

/-- The token reads as it is written: strings need no escapes, and numbers are unsigned integers of 64
bits. -/
def Legible : Token → Prop
  | string text => text.toList.all isPlain
  | number integer? => ∃ n : Nat, n < 2 ^ 64 ∧ integer? = some (n : Int)
  | _ => True

theorem scan?_of_mark {c : Char} {token : Token} (mark : mark? c = some token) (text : List Char) :
    scan? (c :: text) = (scan? text).map (token :: ·) := by
  have notBlank : isBlank c = false := by
    unfold mark? at mark
    split at mark <;> first | rfl | cases mark
  rw [scan?, notBlank, mark]
  rfl

theorem pieces?_of_plain {chars : List Char} (plain : chars.all isPlain) (text : List Char) :
    pieces? (chars ++ '"' :: text) = some (chars.map .char, text) := by
  induction chars with
  | nil => rfl
  | cons c rest ih =>
    simp only [List.all_cons, Bool.and_eq_true] at plain
    obtain ⟨head, tail⟩ := plain
    simp only [isPlain, Bool.and_eq_true, decide_eq_true_eq, bne_iff_ne] at head
    obtain ⟨⟨printable, notQuote⟩, notEscape⟩ := head
    rw [List.cons_append, pieces?]
    · simp [Nat.not_lt.mpr printable, notEscape, ih tail]
    all_goals simp_all

theorem resolve?_map_char (chars : List Char) :
    Piece.resolve? (chars.map .char) = some chars := by
  induction chars with
  | nil => rfl
  | cons c rest ih => simp [Piece.resolve?, ih]

theorem scan?_string {name : String} (plain : name.toList.all isPlain) (text : List Char) :
    scan? (write (string name) ++ text) = (scan? text).map (string name :: ·) := by
  have read := pieces?_of_plain plain text
  have notBlank : isBlank '"' = false := rfl
  have notMark : mark? '"' = none := rfl
  rw [write, List.cons_append, List.append_assoc, List.singleton_append, scan?]
  simp only [notBlank, notMark, Bool.false_eq_true, if_false, if_true]
  split
  · rename_i failed
    simp [read] at failed
  · rename_i pieces after found
    obtain ⟨rfl, rfl⟩ : name.toList.map .char = pieces ∧ text = after := by simpa [read] using found
    cases scan? text <;> simp [resolve?_map_char]

theorem not_isWordChar_of_isBlank {c : Char} (blank : isBlank c) : isWordChar c = false := by
  simp only [isBlank, Bool.or_eq_true, beq_iff_eq] at blank
  rcases blank with ((rfl | rfl) | rfl) | rfl <;> rfl

theorem not_isWordChar_of_mark {c : Char} {token : Token} (mark : mark? c = some token) :
    isWordChar c = false := by
  unfold mark? at mark
  split at mark <;> first | rfl | cases mark

/-- A word ends where no character of words follows. -/
theorem scan?_word {word text : List Char} {token : Token} (read : ofWord? word = some token)
    (all : word.all isWordChar) (ends : ∀ c ∈ text.head?, isWordChar c = false) :
    scan? (word ++ text) = (scan? text).map (token :: ·) := by
  cases word with
  | nil =>
    have nothing : ofWord? [] = none := rfl
    simp [nothing] at read
  | cons c rest =>
    obtain ⟨head, tail⟩ := List.forall_mem_cons.mp (List.all_eq_true.mp all)
    have notBlank : isBlank c = false := by
      by_contra blank
      simp [not_isWordChar_of_isBlank (eq_true_of_ne_false blank)] at head
    have notMark : mark? c = none := by
      by_contra mark
      obtain ⟨token, found⟩ := Option.ne_none_iff_exists'.mp mark
      simp [not_isWordChar_of_mark found] at head
    have notQuote : c ≠ '"' := by
      rintro rfl
      cases head
    have taken : (rest ++ text).takeWhile isWordChar = rest ∧
        (rest ++ text).dropWhile isWordChar = text := by
      rw [List.takeWhile_append_of_pos tail, List.dropWhile_append_of_pos tail]
      cases text with
      | nil => simp
      | cons c rest => simp [ends c rfl]
    rw [List.cons_append, scan?]
    simp only [notBlank, notMark, notQuote, head, taken, read, Bool.false_eq_true, if_false, if_true]
    cases scan? text <;> simp

theorem ofWord?_toDigits {n : Nat} (fits : n < 2 ^ 64) :
    ofWord? (Nat.toDigits 10 n) = some (number (some (n : Int))) := by
  have value := Literal.value_toDigits n
  have inRange := Literal.inRange_of_lt (value.trans_lt fits)
  have integer : Literal.integer? ⟨false, true, Nat.toDigits 10 n, [], 0⟩ = some (n : Int) := by
    simp only [Literal.integer?, value, fits, not_true, Bool.false_eq_true, if_false, if_true]
  have read := Literal.read?_of_isWhole (Literal.isWhole_toDigits n) Literal.isDigit_of_mem_toDigits
  have noLetters : ∀ word : List Char, word.all Char.isDigit = false → Nat.toDigits 10 n ≠ word := by
    rintro _ letters rfl
    simp [List.all_eq_true.mpr Literal.isDigit_of_mem_toDigits] at letters
  rw [ofWord?, if_neg (noLetters _ rfl), if_neg (noLetters _ rfl), if_neg (noLetters _ rfl), read]
  simp only [inRange, integer, if_true]

theorem isWordChar_of_isDigit {c : Char} (digit : c.isDigit) : isWordChar c := by
  simp [isWordChar, Char.isAlphanum, digit]

/-- A token that is a word is written so that it reads as one. -/
theorem ofWord?_write {token : Token} (word : token.isWord) (legible : token.Legible) :
    ofWord? token.write = some token ∧ token.write.all isWordChar := by
  cases token with
  | null => exact ⟨rfl, rfl⟩
  | bool b => cases b <;> exact ⟨rfl, rfl⟩
  | number integer? =>
    obtain ⟨n, fits, rfl⟩ := legible
    exact ⟨ofWord?_toDigits fits, List.all_eq_true.mpr fun c member =>
      isWordChar_of_isDigit (Literal.isDigit_of_mem_toDigits c member)⟩
  | openObject | closeObject | openArray | closeArray | colon | comma | string => cases word

theorem exists_write_of_not_isWord {token : Token} (notWord : ¬token.isWord) :
    ∃ c text, token.write = c :: text ∧ isWordChar c = false := by
  cases token with
  | null | bool | number => exact absurd rfl notWord
  | openObject | closeObject | openArray | closeArray | colon | comma | string =>
    exact ⟨_, _, rfl, rfl⟩

theorem scan?_write_append {token : Token} (legible : token.Legible) {text : List Char}
    (ends : token.isWord → ∀ c ∈ text.head?, isWordChar c = false) :
    scan? (token.write ++ text) = (scan? text).map (token :: ·) := by
  cases token with
  | openObject | closeObject | openArray | closeArray | colon | comma => exact scan?_of_mark rfl text
  | string name => exact scan?_string legible text
  | null | bool | number =>
    obtain ⟨read, all⟩ := ofWord?_write rfl legible
    exact scan?_word read all (ends rfl)

/-- Tokens that are written one behind the other are scanned back. -/
theorem scan?_flatMap_write (legible : ∀ token ∈ tokens, token.Legible)
    (apart : tokens.IsChain fun a b => ¬(a.isWord ∧ b.isWord)) :
    scan? (tokens.flatMap write) = some tokens := by
  induction tokens with
  | nil => rw [List.flatMap_nil, scan?]
  | cons token rest ih =>
    obtain ⟨first, others⟩ := List.forall_mem_cons.mp legible
    rw [List.flatMap_cons, scan?_write_append first, ih others apart.tail]
    · rfl
    · intro word c member
      cases rest with
      | nil => cases member
      | cons next more =>
        obtain ⟨differ, -⟩ := List.isChain_cons_cons.mp apart
        obtain ⟨c', text, written, notWord⟩ :=
          exists_write_of_not_isWord fun word' => differ ⟨word, word'⟩
        rw [List.flatMap_cons, written] at member
        obtain rfl : c' = c := by simpa using member
        exact notWord

end PerpDex.Json.Token
