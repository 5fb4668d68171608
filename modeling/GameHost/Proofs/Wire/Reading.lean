import GameHost.Proofs.Wire.Units

namespace GameHost

structure Reading where
  present : Bool := true
  fixed : Option Bytes := none
  chars : Option Bytes := none
  block : Option Bytes := none
  packet : Option Bytes := none
  packetCount : Option Nat := none
  packets : List Bytes := []
  deriving DecidableEq, Repr

namespace Reading

def absent : Reading := { present := false }

def ofFixed (ty : FieldType) (bs : Bytes) : Reading :=
  { fixed := some bs, chars := if ty = .char then some bs else none }

def ofBlock (bs : Bytes) : Reading := { block := some bs }

def ofPacket (bs : Bytes) : Reading := { packet := some bs }

def ofPackets (elements : List Bytes) : Reading :=
  { packetCount := some elements.length, packets := elements }

end Reading

def Slot.reading : Slot → Reading
  | absent => .absent
  | fixed ty bs => .ofFixed ty bs
  | block bs => .ofBlock bs
  | packet bs => .ofPacket bs
  | array count region =>
    { packetCount := some count.toNat, packets := (⟨region, count.toNat⟩ : PacketIter).toList }

namespace View

variable (d : View) (i : Nat)

/-- The answers of all accessors for field `i`. -/
def reading : Reading where
  present := d.isPresent i
  fixed := d.fixed i
  chars := d.chars i
  block := d.block i
  packet := d.packet i
  packetCount := d.packetCount i
  packets := (d.packets i).toList

theorem reading_eq : d.reading i = (d.slot i).reading := by
  unfold reading isPresent fixed chars block packet packetCount packets
  cases d.slot i with
  | fixed ty bs => cases ty <;> rfl
  | _ => rfl

theorem reading_getD : d.reading i = (d.slots.map Slot.reading).getD i .absent := by
  rw [reading_eq, slot, List.getD_eq_getElem?_getD, List.getD_eq_getElem?_getD, List.getElem?_map]
  cases d.slots[i]? <;> rfl

theorem get_eq (α : Type) [Scalar α] : d.get i α = (d.reading i).fixed.bind fun bs ↦
    if bs.length = Scalar.width α then some (Scalar.ofBytes bs) else none := by
  rw [get, reading]
  cases d.fixed i <;> rfl

theorem slot_of_length_le {d : View} {i : Nat} (h : d.slots.length ≤ i) : d.slot i = .absent := by
  rw [slot, List.getD_eq_getElem?_getD, List.getElem?_eq_none h, Option.getD_none]

end View
end GameHost
