import PerpDex.Error

/-! The frame around accounts of the spot market: a marker before the body and one behind it. -/
namespace PerpDex.Framing

/-- The letters `serum`. -/
def head : Bytes := [115, 101, 114, 117, 109]

/-- The letters `padding`. -/
def tail : Bytes := [112, 97, 100, 100, 105, 110, 103]

def wrap (body : Bytes) : Bytes := head ++ body ++ tail

/-- The body between the markers. The length is looked at first, then the head, then the tail. -/
def unwrap (data : Bytes) : Except Error Bytes :=
  let frame := head.length + tail.length
  if data.length < frame then .error (.sizeMismatch "serum account" frame data.length)
  else if data.take head.length ≠ head then .error .missingHeadMarker
  else if data.drop (data.length - tail.length) ≠ tail then .error .missingTailMarker
  else .ok ((data.drop head.length).take (data.length - frame))

@[simp] theorem unwrap_wrap (body : Bytes) : unwrap (wrap body) = .ok body := by
  have length : (wrap body).length = body.length + 12 := by simp [wrap, head, tail]
  have start : (wrap body).take 5 = head := by simp [wrap, head]
  have rest : (wrap body).drop 5 = body ++ tail := by simp [wrap, head]
  have finish : (wrap body).drop (body.length + 5) = tail := by
    rw [Nat.add_comm, ← List.drop_drop, rest, List.drop_left]
  have short : ¬body.length + 12 < 12 := by omega
  simp [unwrap, length, start, rest, short, finish, show head.length = 5 from rfl,
    show tail.length = 7 from rfl]

end PerpDex.Framing
