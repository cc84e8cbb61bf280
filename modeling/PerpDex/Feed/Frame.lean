import PerpDex.AccountInfo
import PerpDex.Client.Config
import PerpDex.Json.Value
import PerpDex.Text.Base64

/-! The text frames between a client and the notification endpoint. An inbound frame is read as
the first of three shapes that it fits; members that a shape does not know are passed over. -/
namespace PerpDex

structure NotifiedAccount where
  /-- Base 64 text. -/
  payload : String
  executable : Bool
  lamports : UInt64
  owner : String
  rentEpoch : UInt64
deriving DecidableEq

structure Notification where
  method : String
  slot : UInt64
  account : NotifiedAccount
  transport : UInt64
deriving DecidableEq

inductive Frame where
  /-- A request is accepted; its account is notified under the transport id. -/
  | confirmation (request transport : UInt64)
  | failure (request? : Option UInt64) (code : Int64) (message : String)
  | notification (n : Notification)
  | other
deriving DecidableEq

namespace NotifiedAccount

open Json in
def ofJson? (value : Json) : Option NotifiedAccount := do
  match ← value.fields? ["data", "executable", "lamports", "owner", "rentEpoch"] with
  | [.array [payload, encoding], executable, lamports, owner, rentEpoch] =>
    let _ ← encoding.string?
    return {
      payload := ← payload.string?
      executable := ← executable.bool?
      lamports := ← lamports.unsigned?
      owner := ← owner.string?
      rentEpoch := ← rentEpoch.unsigned? }
  | _ => none

/-- The owner is read before the payload. -/
def toInfo (account : NotifiedAccount) (address : Address) : Except Error AccountInfo := do
  match Address.ofText? account.owner with
  | none => throw (.invalidAddress account.owner)
  | some owner =>
    match Base64.decode? account.payload with
    | none => throw .malformedBase64
    | some data =>
      return {
        address, owner, data
        executable := account.executable
        lamports := account.lamports
        rentEpoch := account.rentEpoch }

end NotifiedAccount

namespace Frame

def confirmation? (members : List (String × Json)) : Option Frame := do
  return confirmation (← (← Json.member? members "id").unsigned?)
    (← (← Json.member? members "result").unsigned?)

def requestId? (members : List (String × Json)) : Option (Option UInt64) :=
  match members.filter (·.1 == "id") with
  | [] | [(_, .null)] => some none
  | [(_, id)] => id.unsigned?.map some
  | _ => none

def failure? (members : List (String × Json)) : Option Frame := do
  let request? ← requestId? members
  match ← (← Json.member? members "error").fields? ["code", "message"] with
  | [code, message] => return failure request? (← code.signed?) (← message.string?)
  | _ => none

def notification? (members : List (String × Json)) : Option Frame := do
  let method ← (← Json.member? members "method").string?
  match ← (← Json.member? members "params").fields? ["result", "subscription"] with
  | [result, subscription] =>
    match ← result.fields? ["context", "value"] with
    | [context, value] =>
      match ← context.fields? ["slot"] with
      | [slot] =>
        return notification {
          method
          slot := ← slot.unsigned?
          account := ← NotifiedAccount.ofJson? value
          transport := ← subscription.unsigned? }
      | _ => none
    | _ => none
  | _ => none

/-- The first shape that fits: confirmation, failure, notification, anything. -/
def ofJson : Json → Frame
  | .object members =>
    ((confirmation? members).or ((failure? members).or (notification? members))).getD other
  | _ => other

def read (text : String) : Except Error Frame :=
  match Json.parse? text with
  | none => .error .malformedFrame
  | some value => .ok (ofJson value)

end Frame

structure Request where
  id : Nat
  address : Address
deriving DecidableEq

/-- The text of a request. Addresses and names need no escapes. -/
def Request.text (commitment : Commitment) (r : Request) : String :=
  "\x7b\"id\":" ++ toString r.id ++
    ",\"jsonrpc\":\"2.0\",\"method\":\"accountSubscribe\",\"params\":[\"" ++ r.address.toText ++
    "\",\x7b\"commitment\":\"" ++ commitment.name ++ "\",\"encoding\":\"base64\"\x7d]\x7d"

end PerpDex
