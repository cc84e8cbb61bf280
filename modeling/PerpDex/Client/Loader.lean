import PerpDex.AccountInfo
import PerpDex.Client.Config

/-! Loading accounts in chunks, with a pause between two chunks. The order of the results is that
of the addresses. -/
namespace PerpDex

/-- Where accounts come from. A request for several accounts may be answered by its number. -/
structure AccountSource where
  get : Address → Except Error (Option StoredAccount)
  getMany : (request : Nat) → List Address → Except Error (List (Option StoredAccount))

namespace AccountSource

def find (accounts : List (Address × StoredAccount)) (address : Address) : Option StoredAccount :=
  accounts.reverse.lookup address

def ofList (accounts : List (Address × StoredAccount)) : AccountSource where
  get address := .ok (find accounts address)
  getMany _ addresses := .ok (addresses.map (find accounts))

end AccountSource

/-- What loading has cost so far: the sizes of the requests for several accounts, and the
milliseconds slept. -/
structure Traffic where
  batches : List Nat
  waited : Nat
deriving DecidableEq

namespace Traffic

def none : Traffic := ⟨[], 0⟩

def longestPause : Nat := 30 * 365 * 24 * 60 * 60 * 1000

def wait (t : Traffic) (pause : UInt64) : Traffic :=
  { t with waited := t.waited + min pause.toNat longestPause }

def request (t : Traffic) (size : Nat) : Traffic := { t with batches := t.batches ++ [size] }

end Traffic

/-- The pieces of a list with `size` items each; only the last one may be shorter. With a size of
zero every piece has one item. -/
def chunksOf (size : Nat) : (items : List α) → List (List α)
  | [] => []
  | first :: rest => (first :: rest.take (size - 1)) :: chunksOf size (rest.drop (size - 1))
termination_by items => items.length
decreasing_by
  simp only [List.length_drop, List.length_cons]
  omega

structure Loader where
  source : AccountSource
  chunkSize : Nat := maxChunkSize
  chunkPause : UInt64 := 0
  chunkSize_pos : 0 < chunkSize := by decide
  chunkSize_le : chunkSize ≤ maxChunkSize := by decide

namespace Loader

def new (source : AccountSource) : Loader := { source }

def withChunkSize (loader : Loader) (size : Nat) : Loader :=
  { loader with
    chunkSize := max 1 (min size maxChunkSize)
    chunkSize_pos := by omega
    chunkSize_le := by unfold maxChunkSize; omega }

def withChunkPause (loader : Loader) (pause : UInt64) : Loader :=
  { loader with chunkPause := pause }

def ofConfig (source : AccountSource) (config : Config) : Loader :=
  ((new source).withChunkSize config.chunkSize).withChunkPause config.chunkPause

def load (loader : Loader) (address : Address) : Except Error (Option AccountInfo) := do
  return (← loader.source.get address).map (AccountInfo.ofStored address)

def attach (chunk : List Address) (accounts : List (Option StoredAccount)) :
    List (Option AccountInfo) :=
  List.zipWith (fun address account => account.map (AccountInfo.ofStored address)) chunk accounts

/-- Asks for one chunk after the other. An answer of the wrong length ends the load. -/
def loadChunks (loader : Loader) (pause : UInt64) (traffic : Traffic) :
    (chunks : List (List Address)) → Except Error (List (Option AccountInfo)) × Traffic
  | [] => (.ok [], traffic)
  | chunk :: chunks =>
    let traffic := traffic.wait pause
    let answer := loader.source.getMany traffic.batches.length chunk
    let traffic := traffic.request chunk.length
    match answer with
    | .error e => (.error e, traffic)
    | .ok accounts =>
      if accounts.length ≠ chunk.length then
        (.error (.sizeMismatch "account batch" chunk.length accounts.length), traffic)
      else
        let (rest, traffic) := loadChunks loader loader.chunkPause traffic chunks
        (rest.map (attach chunk accounts ++ ·), traffic)

/-- No pause comes before the first chunk. -/
def loadMany (loader : Loader) (traffic : Traffic) (addresses : List Address) :
    Except Error (List (Option AccountInfo)) × Traffic :=
  loader.loadChunks 0 traffic (chunksOf loader.chunkSize addresses)

def decodeOption (layout : Layout) : Option AccountInfo → Except Error (Option Account)
  | none => .ok none
  | some info => some <$> info.decode layout

def loadTyped (loader : Loader) (layout : Layout) (address : Address) :
    Except Error (Option Account) := do
  decodeOption layout (← loader.load address)

def loadRequired (loader : Loader) (layout : Layout) (address : Address) :
    Except Error Account := do
  match ← loader.loadTyped layout address with
  | some account => return account
  | none => throw (.accountNotFound address)

def loadDecoded (loader : Loader) (layout : Layout) (address : Address) :
    Except Error (Option DecodedAccount) := do
  match ← loader.load address with
  | none => return none
  | some info => return some (← info.decoded layout)

/-- Loads all accounts and then decodes them in order. -/
def loadManyTyped (loader : Loader) (layout : Layout) (traffic : Traffic)
    (addresses : List Address) : Except Error (List (Option Account)) × Traffic :=
  let (infos, traffic) := loader.loadMany traffic addresses
  (infos.bind (·.mapM (decodeOption layout)), traffic)

end Loader
end PerpDex
