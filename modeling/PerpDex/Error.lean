import PerpDex.AccountKind
import PerpDex.Address

/-! Why an operation refuses its input, and the text that reports it. -/
namespace PerpDex

inductive Fault where
  | overflow
  | remainderByZero
  | capacityOverflow
  | indexOutOfRange
deriving DecidableEq

inductive NodeTag where
  | uninitialized
  | inner
  | leaf
  | free
  | lastFree
deriving DecidableEq

namespace NodeTag

def name : NodeTag → String
  | uninitialized => "Uninitialized"
  | inner => "Inner"
  | leaf => "Leaf"
  | free => "Free"
  | lastFree => "LastFree"

def toWord : NodeTag → UInt32
  | uninitialized => 0
  | inner => 1
  | leaf => 2
  | free => 3
  | lastFree => 4

def ofWord? (tag : UInt32) : Option NodeTag :=
  if tag = 0 then some uninitialized
  else if tag = 1 then some inner
  else if tag = 2 then some leaf
  else if tag = 3 then some free
  else if tag = 4 then some lastFree
  else none

@[simp] theorem ofWord?_toWord (tag : NodeTag) : ofWord? tag.toWord = some tag := by
  cases tag <;> rfl

theorem toWord_of_ofWord? {word : UInt32} {tag : NodeTag} (h : ofWord? word = some tag) :
    tag.toWord = word := by
  unfold ofWord? at h
  repeat' split at h
  all_goals cases h
  all_goals simp_all [toWord]

theorem ofWord?_eq_none_iff (word : UInt32) : ofWord? word = none ↔ 4 < word := by
  unfold ofWord?
  grind

end NodeTag

/-- What a tag that is not known should have told. -/
inductive TagUse where
  | node
  | side
  | orderType
  | instruction
deriving DecidableEq

def TagUse.name : TagUse → String
  | node => "node"
  | side => "side"
  | orderType => "order type"
  | instruction => "instruction"

/-- Why the nodes of a book do not form a tree that can be walked. -/
inductive TreeDefect where
  | unusedOnPath (tag : NodeTag) (handle : UInt32)
  | outOfRange (handle : UInt32) (nodes : Nat)
  | tooLong (nodes : Nat)
  | tooManyOrders (orders nodes : Nat)
deriving DecidableEq

def TreeDefect.message : TreeDefect → String
  | unusedOnPath tag handle => s!"{tag.name} node {handle} on the path from the root"
  | outOfRange handle nodes => s!"node index {handle} out of range for {nodes} nodes"
  | tooLong nodes => s!"walk visited more than {nodes} nodes"
  | tooManyOrders orders nodes => s!"{orders} orders do not fit in {nodes} nodes"

inductive ParameterDefect where
  | tooShort
  | leftOver
  | notBoolean (byte : UInt8)
  | notVariant (byte : UInt8)
deriving DecidableEq

def ParameterDefect.message : ParameterDefect → String
  | tooShort => "Unexpected length of input"
  | leftOver => "Not all bytes read"
  | notBoolean byte => s!"Invalid bool representation: {byte}"
  | notVariant byte => s!"Unexpected variant index: {byte}"

inductive Error where
  /-- The data has another length than its layout. -/
  | sizeMismatch (layout : String) (expected actual : Nat)
  /-- The header names another kind of account. -/
  | wrongAccountKind (expected : AccountKind) (actual : UInt8)
  | missingHeadMarker
  | missingTailMarker
  | unknownTag (use : TagUse) (tag : UInt32)
  /-- An unused slot carries data. -/
  | reservedBytes (tag : NodeTag)
  | malformedTree (defect : TreeDefect)
  /-- The header counts more live events than the ring has slots. -/
  | overfullQueue (count : UInt64) (capacity : Nat)
  /-- A snapshot of a queue is older than one seen before. -/
  | sequenceRegression (previous current : UInt64)
  | accountNotFound (address : Address)
  | invalidAddress (text : String)
  | badParameters (defect : ParameterDefect)
  | transportClosed
  /-- A frame that is no JSON text. -/
  | malformedFrame
  | malformedBase64
  | fault (fault : Fault)
deriving DecidableEq

namespace Error

def message : Error → String
  | sizeMismatch layout expected actual =>
    s!"{layout} layout expects {expected} bytes, account data is {actual} bytes"
  | wrongAccountKind expected actual =>
    s!"expected a {expected.name} account, found data type {actual}"
  | missingHeadMarker => "account data does not start with the serum head padding"
  | missingTailMarker => "account data does not end with the serum tail padding"
  | unknownTag use tag => s!"unknown {use.name} tag {tag}"
  | reservedBytes tag => s!"{tag.name} node has non-zero reserved bytes"
  | malformedTree defect => s!"malformed order book tree: {defect.message}"
  | overfullQueue count capacity =>
    s!"invalid event queue header: count {count} exceeds capacity {capacity}"
  | sequenceRegression previous current =>
    s!"event queue sequence number went backwards from {previous} to {current}"
  | accountNotFound address => s!"account {address.toText} not found"
  | invalidAddress text => s!"invalid public key: {text}"
  | badParameters defect => s!"I/O error: {defect.message}"
  | transportClosed => "subscription transport closed"
  | malformedFrame => "JSON error"
  | malformedBase64 => "base64 error"
  | fault .overflow => "arithmetic overflow"
  | fault .remainderByZero => "remainder with a divisor of zero"
  | fault .capacityOverflow => "capacity overflow"
  | fault .indexOutOfRange => "index out of range"

end Error

/-- A step has a result if the one before it has a result from which this one is got. -/
theorem bind_eq_ok_iff {x : Except Error α} {next : α → Except Error β} {b : β} :
    x >>= next = .ok b ↔ ∃ a, x = .ok a ∧ next a = .ok b := by
  cases x <;> simp [bind, Except.bind]

theorem map_eq_ok_iff {f : α → β} {x : Except Error α} {b : β} :
    f <$> x = .ok b ↔ ∃ a, x = .ok a ∧ f a = b := by
  cases x <;> simp [Functor.map, Except.map]

/-- The first step that fails decides the error. -/
theorem bind_eq_error_iff {x : Except Error α} {next : α → Except Error β} {e : Error} :
    x >>= next = .error e ↔ x = .error e ∨ ∃ a, x = .ok a ∧ next a = .error e := by
  cases x <;> simp [bind, Except.bind]

theorem map_eq_error_iff {f : α → β} {x : Except Error α} {e : Error} :
    f <$> x = .error e ↔ x = .error e := by
  cases x <;> simp [Functor.map, Except.map]

def checkSize (layout : String) (expected : Nat) (data : Bytes) : Except Error Unit :=
  if data.length = expected then .ok () else .error (.sizeMismatch layout expected data.length)

theorem checkSize_eq_ok_iff {layout : String} {expected : Nat} {data : Bytes} {u : Unit} :
    checkSize layout expected data = .ok u ↔ data.length = expected := by
  unfold checkSize
  split <;> simp_all

theorem checkSize_eq_error_iff {layout : String} {expected : Nat} {data : Bytes} {e : Error} :
    checkSize layout expected data = .error e ↔
      data.length ≠ expected ∧ e = .sizeMismatch layout expected data.length := by
  unfold checkSize
  split <;> simp_all [eq_comm]

namespace Header

def check (header : Header) (expected : AccountKind) : Except Error Unit :=
  if header.kindByte = expected.toByte then .ok ()
  else .error (.wrongAccountKind expected header.kindByte)

end Header
end PerpDex
