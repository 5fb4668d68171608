import GameHost.Wire.Header

namespace GameHost.Frame

/-- Smallest frame: header, one flag byte, rear guard. -/
def minLen : Nat := headerLen + 1 + 1

inductive Step
  | wait
  | frame (frame rest : Bytes)
  | lost (fault : DecodeFault)
  deriving DecidableEq, Repr

/-- Looks for one frame. A wrong guard or an impossible length means that the stream is lost. -/
def step (stream : Bytes) : Step :=
  if stream.length < 3 then .wait
  else if stream.headD 0 ≠ frontGuard then .lost .badGuard
  else
    let declared := Header.declaredLen stream
    if declared < minLen then .lost .badLength
    else if stream.length < declared then .wait
    else if stream.getD (declared - 1) 0 ≠ rearGuard then .lost .badGuard
    else .frame (stream.take declared) (stream.drop declared)

theorem step_rest_lt {stream frame rest : Bytes} (h : step stream = .frame frame rest) :
    rest.length < stream.length := by
  unfold step at h
  split at h <;> try simp at h
  split at h <;> try simp at h
  split at h <;> try simp at h
  split at h <;> try simp at h
  split at h <;> try simp at h
  have hm : 0 < minLen := by decide
  rw [← h.2, List.length_drop]
  omega

def cut (stream : Bytes) : Except Error (Option Bytes) × Bytes :=
  match step stream with
  | .wait => (.ok none, stream)
  | .lost fault => (.error (.decode fault), stream)
  | .frame frame rest => (.ok (some frame), rest)

/-- As `cut`, but after the end of the stream no bytes may be left without a frame. -/
def cutLast (stream : Bytes) : Except Error (Option Bytes) × Bytes :=
  match cut stream with
  | (.ok none, left) => (if left = [] then .ok none else .error (.io .other), left)
  | found => found

structure Drained where
  frames : List Bytes
  left : Bytes
  fault : Option DecodeFault
  deriving DecidableEq, Repr

def drain (stream : Bytes) : Drained :=
  match _h : step stream with
  | .wait => ⟨[], stream, none⟩
  | .lost fault => ⟨[], stream, some fault⟩
  | .frame frame rest =>
    let more := drain rest
    { more with frames := frame :: more.frames }
termination_by stream.length
decreasing_by exact step_rest_lt (by assumption)

end GameHost.Frame
