import GameHost.Wire.Scalar
import GameHost.Wire.Header

namespace GameHost

/-- `inline` holds a scalar in wire order, `raw` bytes that may be shorter than the field, `packet`
and `packets` nested messages with their length in front. -/
inductive FieldValue
  | inline (bytes : Bytes)
  | raw (bytes : Bytes)
  | block (bytes : Bytes)
  | packet (bytes : Bytes)
  | packets (elements : List Bytes)
  deriving DecidableEq, Repr

namespace FieldValue

def scalar {α : Type} [Scalar α] (a : α) : FieldValue := .inline (Scalar.toBytes a)

def text (s : String) : FieldValue := .raw (Bytes.ofText s)

/-- A nested message must be as long as its own length field says. -/
def isPacket (bs : Bytes) : Bool :=
  decide (lengthWidth ≤ bs.length) && Bytes.ofLE (bs.take lengthWidth) + lengthWidth == bs.length

/-- Bytes that the value takes in the field, `none` if the field stays absent. -/
def sizeIn (spec : FieldSpec) : FieldValue → Except EncodeFault (Option Nat)
  | block bs =>
    if spec.ty ≠ .memoryBlock then .error .mismatch
    else if maxPacketSize < bs.length then .error .tooLong
    else .ok (some (lengthWidth + bs.length))
  | packet bs =>
    if spec.ty ≠ .packet then .error .mismatch
    else if !isPacket bs then .error .badSubPacket
    else .ok (some (if spec.isPacketArray then 1 + bs.length else bs.length))
  | packets elements =>
    if !spec.isPacketArray then .error .mismatch
    else if elements = [] then .ok none
    else if spec.count.toNat < elements.length ∨ 255 < elements.length then .error .arrayTooLong
    else if !elements.all isPacket then .error .badSubPacket
    else .ok (some (1 + elements.flatten.length))
  | inline bs =>
    if spec.ty.isFixed ∧ bs.length = spec.fixedLen then .ok (some spec.fixedLen)
    else .error .mismatch
  | raw bs =>
    if ¬ spec.ty.isFixed then .error .mismatch
    else if spec.fixedLen < bs.length then .error .tooLong
    else .ok (some spec.fixedLen)

def bytesIn (spec : FieldSpec) : FieldValue → Bytes
  | inline bs => bs
  | raw bs => bs.padTo spec.fixedLen
  | block bs => Bytes.toLE 2 bs.length ++ bs
  | packet bs => if spec.isPacketArray then 1 :: bs else bs
  | packets [] => []
  | packets elements => UInt8.ofNat elements.length :: elements.flatten

theorem length_bytesIn {spec : FieldSpec} {v : FieldValue} {size : Option Nat}
    (h : v.sizeIn spec = .ok size) : (v.bytesIn spec).length = size.getD 0 := by
  cases v with
  | inline bs =>
    simp only [sizeIn] at h
    split at h
    · next hc =>
      simp only [Except.ok.injEq] at h
      simp [← h, bytesIn, hc.2]
    · simp at h
  | raw bs =>
    simp only [sizeIn] at h
    split at h
    · simp at h
    · split at h
      · simp at h
      · simp only [Except.ok.injEq] at h
        simp only [← h, bytesIn, Option.getD_some]
        exact Bytes.length_padTo (by omega)
  | block bs =>
    simp only [sizeIn] at h
    split at h <;> try simp at h
    split at h <;> simp at h
    simp [← h, bytesIn, lengthWidth]
  | packet bs =>
    simp only [sizeIn] at h
    split at h <;> try simp at h
    split at h <;> simp at h
    simp only [← h, bytesIn, Option.getD_some]
    split <;> simp [Nat.add_comm]
  | packets elements =>
    cases elements with
    | nil =>
      simp only [sizeIn] at h
      split at h <;> simp at h
      simp [← h, bytesIn]
    | cons e es =>
      simp only [sizeIn] at h
      split at h <;> try simp at h
      split at h
      · simp at h
      · split at h
        · simp at h
        · simp only [Except.ok.injEq] at h
          simp [← h, bytesIn, Nat.add_comm]

end FieldValue
end GameHost
