import PerpDex.Proofs.Text.Base58
import PerpDex.Proofs.Json.Tokens
import PerpDex.Feed.Table

/-! What is sent for a request. The text is written without blanks and escapes, so it is scanned token
by token, and gives back the id and the address it was written for. -/
namespace PerpDex.Request

open Json (Token)

/-- The text asks for the notifications of an account: its value holds the id of the request, and the
base 58 text that reads as the address. -/
structure Asks (commitment : Commitment) (r : Request) (text : String) : Prop where
  value : Json.parse? text = some (.object [
    ("id", .number (some r.id)),
    ("jsonrpc", .string "2.0"),
    ("method", .string "accountSubscribe"),
    ("params", .array [
      .string r.address.toText,
      .object [("commitment", .string commitment.name), ("encoding", .string "base64")]])])
  address : Address.ofText? r.address.toText = some r.address

def tokens (commitment : Commitment) (r : Request) : List Token :=
  [.openObject,
    .string "id", .colon, .number (some r.id), .comma,
    .string "jsonrpc", .colon, .string "2.0", .comma,
    .string "method", .colon, .string "accountSubscribe", .comma,
    .string "params", .colon,
    .openArray,
      .string r.address.toText, .comma,
      .openObject,
        .string "commitment", .colon, .string commitment.name, .comma,
        .string "encoding", .colon, .string "base64",
      .closeObject,
    .closeArray,
  .closeObject]

variable {commitment : Commitment} {r : Request}

theorem toList_text (commitment : Commitment) (r : Request) :
    (r.text commitment).toList = (r.tokens commitment).flatMap Token.write := by
  simp [text, tokens, Token.write]

theorem all_isPlain_toText (key : Address) : key.toText.toList.all Token.isPlain := by
  have plain : Base58.alphabet.all Token.isPlain := by decide
  exact List.all_eq_true.mpr fun c member =>
    List.all_eq_true.mp plain c (Base58.mem_alphabet_of_mem_encode member)

theorem legible_tokens (fits : r.id < 2 ^ 64) :
    ∀ token ∈ r.tokens commitment, token.Legible := by
  have name : commitment.name.toList.all Token.isPlain := by
    cases commitment <;> decide
  have key := all_isPlain_toText r.address
  have id : ∃ n : Nat, n < 2 ^ 64 ∧ some (r.id : Int) = some (n : Int) := ⟨r.id, fits, rfl⟩
  simp only [tokens, List.forall_mem_cons, List.not_mem_nil, false_implies, implies_true, and_true,
    Token.Legible, name, key, id, true_and]
  decide

theorem apart_tokens : (r.tokens commitment).IsChain fun a b => ¬(a.isWord ∧ b.isWord) := by
  simp [tokens, Token.isWord]

/-- Every request is read back from its text. -/
theorem asks_text (fits : r.id < 2 ^ 64) : r.Asks commitment (r.text commitment) := by
  refine ⟨?_, r.address.ofText?_toText⟩
  rw [Json.parse?, toList_text, Token.scan?_flatMap_write (legible_tokens fits) apart_tokens]
  rfl

end PerpDex.Request
