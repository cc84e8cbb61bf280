import PerpDex.Framing
import PerpDex.Queue.PerpEvent
import PerpDex.Queue.Ring
import PerpDex.Queue.SpotEvent

/-! Event queues as accounts: a header of 32 bytes, then the slots up to the end of the data. -/
namespace PerpDex

abbrev PerpEventQueue := EventQueue PerpEvent

abbrev SpotEventQueue := EventQueue SpotEvent

namespace EventQueue

def headerSize : Nat := 32

/-- Reads a queue with slots of `size` bytes. What is wrong is reported in the order size, header,
number of live events, first slot that is refused. -/
def decodeRing (layout : String) (size : Nat) (checkHeader : Header → Except Error Unit)
    (decode : Nat → Bytes → Except Error ε) (data : Bytes) : Except Error (EventQueue ε) := do
  let capacity := (data.length - headerSize) / size
  if data.length ≠ headerSize + capacity * size then
    throw (.sizeMismatch layout (headerSize + capacity * size) data.length)
  checkHeader (Header.read data)
  let count := Bytes.u64At data 16
  if capacity < count.toNat then throw (.overfullQueue count capacity)
  let slots := Bytes.chunks size capacity (data.drop headerSize)
  let events ← slots.zipIdx.mapM fun (slot, i) => decode i slot
  return {
    head := if capacity = 0 then 0 else UInt64.ofNat ((Bytes.u64At data 8).toNat % capacity)
    count
    sequence := Bytes.u64At data 24
    events }

end EventQueue

namespace PerpEventQueue

def decode (data : Bytes) : Except Error PerpEventQueue :=
  EventQueue.decodeRing "PerpEventQueue" PerpEvent.size (·.check .eventQueue) PerpEvent.decode data

end PerpEventQueue

namespace SpotEventQueue

/-- The queue stands inside the frame of the spot market. -/
def decode (data : Bytes) : Except Error SpotEventQueue := do
  let body ← Framing.unwrap data
  EventQueue.decodeRing "SpotEventQueue" SpotEvent.size (fun _ => .ok ()) SpotEvent.decode body

end SpotEventQueue
end PerpDex
