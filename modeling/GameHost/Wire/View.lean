import GameHost.Wire.Scalar
import GameHost.Wire.Header

namespace GameHost

/-- The bytes of one field of a decoded message. Packets and the elements of an array keep the
length in front of them, blocks do not. -/
inductive Slot
  | absent
  | fixed (ty : FieldType) (bytes : Bytes)
  | block (bytes : Bytes)
  | packet (bytes : Bytes)
  | array (count : UInt8) (region : Bytes)
  deriving DecidableEq, Repr

structure PacketIter where
  region : Bytes
  remaining : Nat
  deriving DecidableEq, Repr

namespace PacketIter

def next? (it : PacketIter) : Option (Bytes × PacketIter) :=
  if it.remaining = 0 ∨ it.region.length < lengthWidth then none
  else
    let len := min (Bytes.ofLE (it.region.take lengthWidth) + lengthWidth) it.region.length
    some (it.region.take len, ⟨it.region.drop len, it.remaining - 1⟩)

/-- Elements still to come, as announced before any is taken. -/
def sizeHint (it : PacketIter) : Nat := it.remaining

def toList (it : PacketIter) : List Bytes := go it.remaining it
where
  go : Nat → PacketIter → List Bytes
    | 0, _ => []
    | n + 1, it =>
      match it.next? with
      | none => []
      | some (element, rest) => element :: go n rest

end PacketIter

structure View where
  header : Option Header
  flags : Nat
  slots : List Slot
  deriving DecidableEq, Repr

namespace View

variable (d : View) (i : Nat)

def slot : Slot := d.slots.getD i .absent

def isPresent : Bool := d.slot i != .absent

def fixed : Option Bytes :=
  match d.slot i with
  | .fixed _ bs => some bs
  | _ => none

def get (α : Type) [Scalar α] : Option α :=
  match d.fixed i with
  | some bs => if bs.length = Scalar.width α then some (Scalar.ofBytes bs) else none
  | none => none

/-- The value of field `i` and whether there is one; else the value stays as it was. -/
def readInto {α : Type} [Scalar α] (old : α) : Bool × α :=
  match d.get i α with
  | some a => (true, a)
  | none => (false, old)

def chars : Option Bytes :=
  match d.slot i with
  | .fixed .char bs => some bs
  | _ => none

/-- A character field up to its first NUL. -/
def charsText : Option String :=
  (d.chars i).bind fun bs ↦ Bytes.text? (bs.takeWhile (· ≠ 0))

def block : Option Bytes :=
  match d.slot i with
  | .block bs => some bs
  | _ => none

def packet : Option Bytes :=
  match d.slot i with
  | .packet bs => some bs
  | _ => none

def packetCount : Option Nat :=
  match d.slot i with
  | .array count _ => some count.toNat
  | _ => none

def packets : PacketIter :=
  match d.slot i with
  | .array count region => ⟨region, count.toNat⟩
  | _ => ⟨[], 0⟩

end View
end GameHost
