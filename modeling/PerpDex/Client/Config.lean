import PerpDex.Power

/-! How a client reaches the exchange: its endpoints, the commitment it asks for and the pace of
its requests, read from named settings. -/
namespace PerpDex

inductive Commitment where
  | processed
  | confirmed
  | finalized
deriving DecidableEq, Inhabited

namespace Commitment

def name : Commitment → String
  | processed => "processed"
  | confirmed => "confirmed"
  | finalized => "finalized"

def ofName? (name : String) : Option Commitment :=
  if name = "processed" then some processed
  else if name = "confirmed" then some confirmed
  else if name = "finalized" then some finalized
  else none

end Commitment

inductive ConfigError where
  | missing (name : String)
  | invalid (name rule : String)
deriving DecidableEq

def ConfigError.message : ConfigError → String
  | missing name => s!"Missing required environment variable: {name}"
  | invalid name rule => s!"Invalid value for {name}: {rule}"

def websocketUrl (url : String) : String :=
  match url.toList with
  | 'h' :: 't' :: 't' :: 'p' :: 's' :: ':' :: '/' :: '/' :: rest => "wss://" ++ String.ofList rest
  | 'h' :: 't' :: 't' :: 'p' :: ':' :: '/' :: '/' :: rest => "ws://" ++ String.ofList rest
  | _ => url

def maxChunkSize : Nat := 100

/-- Times are in milliseconds. -/
structure Config where
  rpcUrl : String
  wsUrl : String
  commitment : Commitment
  chunkSize : Nat
  chunkPause : UInt64
  maxBackoff : UInt64
deriving DecidableEq

namespace Config

def new (url : String) : Config where
  rpcUrl := url
  wsUrl := websocketUrl url
  commitment := .processed
  chunkSize := maxChunkSize
  chunkPause := 0
  maxBackoff := 30000

/-- An unsigned integer of 64 bits in decimal digits, with at most one plus sign before them. -/
def readUnsigned? (text : String) : Option UInt64 :=
  let digits := match text.toList with
    | '+' :: rest => rest
    | all => all
  if digits.isEmpty ∨ ¬digits.all Char.isDigit then none
  else
    let n := digits.foldl (fun n c => n * 10 + (c.toNat - '0'.toNat)) 0
    if n < 2 ^ 64 then some (UInt64.ofNat n) else none

abbrev Settings := String → Option String

def milliseconds (settings : Settings) (name : String) (default : UInt64) :
    Except ConfigError UInt64 :=
  match settings name with
  | none => .ok default
  | some text =>
    match readUnsigned? text with
    | some n => .ok n
    | none => .error (.invalid name "must be a number of milliseconds")

def readCommitment (settings : Settings) : Except ConfigError Commitment :=
  match settings "MANGO_COMMITMENT" with
  | none => .ok .processed
  | some text =>
    match Commitment.ofName? text with
    | some commitment => .ok commitment
    | none => .error (.invalid "MANGO_COMMITMENT"
        s!"must be processed, confirmed, or finalized, got {text}")

def readChunkSize (settings : Settings) : Except ConfigError Nat :=
  match settings "MANGO_ACCOUNT_CHUNK_SIZE" with
  | none => .ok maxChunkSize
  | some text =>
    let size := (readUnsigned? text).map UInt64.toNat
    match size.filter fun n => 1 ≤ n ∧ n ≤ maxChunkSize with
    | some n => .ok n
    | none => .error (.invalid "MANGO_ACCOUNT_CHUNK_SIZE" s!"must be between 1 and {maxChunkSize}")

/-- Reads the settings in a fixed order and reports the first that is wrong. Only the endpoint for
requests is required. -/
def read (settings : Settings) : Except ConfigError Config := do
  let rpcUrl ← match settings "MANGO_RPC_URL" with
    | some url => pure url
    | none => throw (.missing "MANGO_RPC_URL")
  let wsUrl := (settings "MANGO_WS_URL").getD (websocketUrl rpcUrl)
  let commitment ← readCommitment settings
  let chunkSize ← readChunkSize settings
  let chunkPause ← milliseconds settings "MANGO_CHUNK_PAUSE_MS" 0
  let maxBackoff ← milliseconds settings "MANGO_RECONNECT_MAX_BACKOFF_MS" 30000
  return { rpcUrl, wsUrl, commitment, chunkSize, chunkPause, maxBackoff }

end Config
end PerpDex
