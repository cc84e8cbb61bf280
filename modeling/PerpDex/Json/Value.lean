import PerpDex.Json.Token

/-! JSON values and the texts that stand for them. Objects keep their members in order, repeated
names included. -/
namespace PerpDex

inductive Json where
  | null
  | bool (b : Bool)
  /-- A number, with its value if it is an integer. -/
  | number (integer? : Option Int)
  | string (text : String)
  | array (items : List Json)
  | object (members : List (String × Json))
deriving Inhabited

namespace Json

/-- An array or object whose end is not reached yet. What stands in it comes last first; `expects`
tells whether an item has to follow, or the name of a member that waits for its value. -/
inductive Unfinished where
  | array (items : List Json) (expects : Bool)
  | object (members : List (String × Json)) (expects : Bool)
  | member (members : List (String × Json)) (name : String) (colon : Bool)

/-- Where a text stands: inside the open arrays and objects of a stack, the innermost first, or
behind its value. -/
inductive Position where
  | inside (stack : List Unfinished)
  | done (value : Json)

def maxDepth : Nat := 127

def supply (value : Json) : List Unfinished → Option Position
  | [] => some (.done value)
  | .array items true :: stack => some (.inside (.array (value :: items) false :: stack))
  | .member members name true :: stack =>
    some (.inside (.object ((name, value) :: members) false :: stack))
  | _ => none

def expectsValue : List Unfinished → Bool
  | [] | .array _ true :: _ | .member _ _ true :: _ => true
  | _ => false

def enter (inner : Unfinished) (stack : List Unfinished) : Option Position :=
  if expectsValue stack && stack.length < maxDepth then some (.inside (inner :: stack)) else none

/-- One token. An array or object may be closed when nothing is in it, or behind an item. -/
def step : Position → Token → Option Position
  | .done _, _ => none
  | .inside stack, token =>
    match token, stack with
    | .null, stack => supply .null stack
    | .bool b, stack => supply (.bool b) stack
    | .number integer?, stack => supply (.number integer?) stack
    | .string name, .object members true :: stack =>
      some (.inside (.member members name false :: stack))
    | .string text, stack => supply (.string text) stack
    | .colon, .member members name false :: stack =>
      some (.inside (.member members name true :: stack))
    | .comma, .array items false :: stack => some (.inside (.array items true :: stack))
    | .comma, .object members false :: stack => some (.inside (.object members true :: stack))
    | .openArray, stack => enter (.array [] true) stack
    | .openObject, stack => enter (.object [] true) stack
    | .closeArray, .array [] _ :: stack => supply (.array []) stack
    | .closeArray, .array items false :: stack => supply (.array items.reverse) stack
    | .closeObject, .object [] _ :: stack => supply (.object []) stack
    | .closeObject, .object members false :: stack => supply (.object members.reverse) stack
    | _, _ => none

def parse? (text : String) : Option Json := do
  let tokens ← Token.scan? text.toList
  match ← tokens.foldlM step (.inside []) with
  | .done value => some value
  | .inside _ => none

/-- The value of the member with the given name, if there is exactly one. -/
def member? (members : List (String × Json)) (name : String) : Option Json :=
  match members.filter (·.1 == name) with
  | [(_, value)] => some value
  | _ => none

/-- The values for the given names: of an object that has each of them once, or of an array that
holds as many items, in order. -/
def fields? (names : List String) : Json → Option (List Json)
  | object members => names.mapM (member? members)
  | array items => if items.length = names.length then some items else none
  | _ => none

def string? : Json → Option String
  | string text => some text
  | _ => none

def bool? : Json → Option Bool
  | bool b => some b
  | _ => none

def unsigned? : Json → Option UInt64
  | number (some n) => if 0 ≤ n then some (UInt64.ofNat n.toNat) else none
  | _ => none

def signed? : Json → Option Int64
  | number (some n) => if n < 2 ^ 63 then some (Int64.ofInt n) else none
  | _ => none

end Json
end PerpDex
