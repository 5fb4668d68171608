import GameHost.Wire.View

namespace GameHost

namespace Bytes

def cut (n : Nat) (bs : Bytes) : Except DecodeFault (Bytes × Bytes) :=
  if n ≤ bs.length then .ok (bs.take n, bs.drop n) else .error .truncated

/-- Splits off a unit that starts with its length; the unit keeps that length. -/
def cutPrefixed (bs : Bytes) : Except DecodeFault (Bytes × Bytes) := do
  let (len, rest) ← bs.cut lengthWidth
  let (content, rest) ← rest.cut (ofLE len)
  return (len ++ content, rest)

def cutUnits : Nat → Bytes → Except DecodeFault (Bytes × Bytes)
  | 0, bs => .ok ([], bs)
  | n + 1, bs => do
    let (unit, rest) ← bs.cutPrefixed
    let (units, rest) ← cutUnits n rest
    return (unit ++ units, rest)

end Bytes

namespace Slot

def ofBytes (spec : FieldSpec) (bs : Bytes) : Except DecodeFault (Slot × Bytes) :=
  match spec.ty with
  | .packet =>
    if spec.isPacketArray then do
      let (head, rest) ← bs.cut 1
      let count := head.headD 0
      if spec.count.toNat < count.toNat then throw .arrayOverflow
      let (region, rest) ← rest.cutUnits count.toNat
      return (.array count region, rest)
    else do
      let (unit, rest) ← bs.cutPrefixed
      return (.packet unit, rest)
  | .memoryBlock => do
    let (unit, rest) ← bs.cutPrefixed
    return (.block (unit.drop lengthWidth), rest)
  | ty => do
    let (content, rest) ← bs.cut spec.fixedLen
    return (.fixed ty content, rest)

/-- The slots of the fields from index `i` on; bytes past the last unit are left over. -/
def listOfBytes (flags : Nat) : Nat → List FieldSpec → Bytes → Except DecodeFault (List Slot × Bytes)
  | _, [], bs => .ok ([], bs)
  | i, spec :: specs, bs =>
    if flags.testBit i then do
      let (slot, rest) ← ofBytes spec bs
      let (slots, rest) ← listOfBytes flags (i + 1) specs rest
      return (slot :: slots, rest)
    else do
      let (slots, rest) ← listOfBytes flags (i + 1) specs bs
      return (.absent :: slots, rest)

end Slot

namespace Schema

variable (s : Schema)

/-- Reads a top-level message; bytes past its declared length are ignored. -/
def decodeTop? (data : Bytes) : Except DecodeFault View := do
  let overhead := s.topOverhead
  if data.length < overhead + 1 then throw .truncated
  if data.headD 0 ≠ frontGuard then throw .badGuard
  let declared := Header.declaredLen data
  if declared < overhead + 1 then throw .badLength
  if data.length < declared then throw .truncated
  if data.getD (declared - 1) 0 ≠ rearGuard then throw .badGuard
  let flags := Bytes.ofLE ((data.drop headerLen).take s.flagWidth.bytes)
  let (slots, _) ← Slot.listOfBytes flags 0 s.fields ((data.take (declared - 1)).drop overhead)
  return ⟨some (Header.ofBytes data), flags, slots⟩

def decodeNested? (data : Bytes) : Except DecodeFault View := do
  if data.length < lengthWidth then throw .truncated
  let bodyLen := Bytes.ofLE (data.take lengthWidth)
  let endAt := lengthWidth + bodyLen
  if data.length < endAt then throw .truncated
  if bodyLen < s.flagWidth.bytes then throw .badLength
  let flags := Bytes.ofLE ((data.drop lengthWidth).take s.flagWidth.bytes)
  let (slots, _) ← Slot.listOfBytes flags 0 s.fields ((data.take endAt).drop s.nestedOverhead)
  return ⟨none, flags, slots⟩

def decodeTop (data : Bytes) : Except Error View := (s.decodeTop? data).mapError .decode

def decodeNested (data : Bytes) : Except Error View := (s.decodeNested? data).mapError .decode

end Schema
end GameHost
