import GameHost.Proofs.Wire.Cursor
import GameHost.Proofs.Wire.Envelope

/-!
No index and no slice of the decoders or of the accessors is out of bounds.

The decoders and accessors stand here once more as they go about the buffer and the table of slots,
with every access checked. `Schema.readTop_eq` and `Schema.readNested_eq` say that they have the
outcome of the decoders, `View.bounded` that accessors of a table have the answers of
the accessors of its view.
-/

namespace GameHost

open Guarded (access within)

/-- A decoded message as it is kept: a table of slots, of which the first `fieldCount` are in use. -/
structure Table where
  header : Option Header
  flags : Nat
  fieldCount : Nat
  slots : List Slot

def View.table (d : View) : Table :=
  ⟨d.header, d.flags, d.slots.length,
    d.slots ++ List.replicate (Schema.maxFields - d.slots.length) .absent⟩

theorem Bytes.getElem?_eq_getD {bs : Bytes} {i : Nat} (h : i < bs.length) :
    bs[i]? = some (bs.getD i 0) := by
  rw [List.getD_eq_getElem?_getD, List.getElem?_eq_getElem h, Option.getD_some]

namespace Header

def read (data : Bytes) : Option (Header × Nat) := do
  let length ← data.indexed 2 1
  let kind ← data[3]?
  let flags ← data[4]?
  let owner ← data.indexed 4 5
  let tick ← data.indexed 4 9
  return (⟨kind, flags, .ofNat (Bytes.ofLE owner), .ofNat (Bytes.ofLE tick)⟩, Bytes.ofLE length)

theorem read_eq {data : Bytes} (h : headerLen ≤ data.length) :
    read data = some (ofBytes data, declaredLen data) := by
  have hlen : 13 ≤ data.length := h
  have hkind : data[3]? = some (data.getD 3 0) := Bytes.getElem?_eq_getD (by omega)
  have hflags : data[4]? = some (data.getD 4 0) := Bytes.getElem?_eq_getD (by omega)
  rw [read, Bytes.indexed_eq (by omega), Bytes.indexed_eq (by omega), Bytes.indexed_eq (by omega),
    hkind, hflags]
  rfl

end Header

namespace Schema

variable (s : Schema)

def readFlags (data : Bytes) (start : Nat) : Option Nat := do
  let tail ← data.slice? start data.length
  let word ← tail.indexed s.flagWidth.bytes 0
  return Bytes.ofLE word

def readFields (header : Option Header) (flags : Nat) (data : Bytes) (start stop : Nat) :
    Guarded Table := do
  let slots ← Cursor.walk flags 0 s.fields (List.replicate maxFields .absent) ⟨data, start, stop⟩
  return ⟨header, flags, s.size, slots⟩

def readTop (data : Bytes) : Guarded Table :=
  if data.length < s.topOverhead + 1 then throw .truncated
  else do
    let front ← access data[0]?
    if front ≠ frontGuard then throw .badGuard
    else do
      let (header, declared) ← access (Header.read data)
      if declared < s.topOverhead + 1 then throw .badLength
      else if data.length < declared then throw .truncated
      else do
        let rear ← access data[declared - 1]?
        if rear ≠ rearGuard then throw .badGuard
        else do
          let flags ← access (s.readFlags data headerLen)
          s.readFields (some header) flags data s.topOverhead (declared - 1)

def readNested (data : Bytes) : Guarded Table :=
  if data.length < lengthWidth then throw .truncated
  else do
    let word ← access (data.indexed lengthWidth 0)
    let bodyLen := Bytes.ofLE word
    if data.length < lengthWidth + bodyLen then throw .truncated
    else if bodyLen < s.flagWidth.bytes then throw .badLength
    else do
      let flags ← access (s.readFlags data lengthWidth)
      s.readFields none flags data s.nestedOverhead (lengthWidth + bodyLen)

variable {s : Schema} {data : Bytes}

theorem size_le (s : Schema) : s.size ≤ 32 := by
  have h := s.length_le
  cases hw : s.flagWidth <;> simp [hw, FlagWidth.bits, FlagWidth.bytes] at h <;> simp [size] <;> omega

theorem readFlags_eq {start : Nat} (h : start + s.flagWidth.bytes ≤ data.length) :
    s.readFlags data start = some (Bytes.ofLE ((data.drop start).take s.flagWidth.bytes)) := by
  have htail : data.slice? start data.length = some (data.drop start) := by
    rw [Bytes.slice?, if_pos (by omega), List.take_length]
  rw [readFlags, htail]
  simp only [Option.bind_eq_bind, Option.bind_some]
  rw [Bytes.indexed_eq (by simp; omega)]
  rfl

theorem readFields_eq {header : Option Header} {flags start stop : Nat} (hstart : start ≤ stop)
    (hstop : stop ≤ data.length) : s.readFields header flags data start stop =
      within ((s.viewOf header flags ((data.take stop).drop start)).map View.table) := by
  have hlen : (data.take stop).length = stop := List.length_take_of_le hstop
  have hcursor : (⟨data, start, stop⟩ : Cursor) =
      .facing (data.take stop) (data.drop stop) ((data.take stop).drop start) := by
    rw [Cursor.facing, List.take_append_drop, List.length_drop, hlen, Nat.sub_sub_self hstart]
  have hsize : s.fields.length ≤ 32 := s.size_le
  have hroom : s.fields.length ≤ maxFields := Nat.le_trans hsize (by decide)
  rw [readFields, hcursor, ← List.nil_append (List.replicate maxFields Slot.absent)]
  refine Guarded.bind_map (Cursor.walk_facing (List.drop_suffix ..) rfl (by omega) hroom) ?_
  rintro ⟨slots, rest⟩ hslots
  obtain ⟨units, hparses, -⟩ := Slot.listOfBytes_eq_ok hslots
  have hslotsLen : slots.length = s.fields.length := by
    rw [← hparses.length_eq, List.length_map]
  simp only [Guarded.pure_eq, List.nil_append, ← hslotsLen, size]
  rfl

theorem readTop_eq (s : Schema) (data : Bytes) :
    s.readTop data = within ((s.decodeTop? data).map View.table) := by
  have hover : s.topOverhead = headerLen + s.flagWidth.bytes := rfl
  rw [decodeTop?_eq]
  simp only [topChecks, checked_cons, checked_nil, decide_eq_true_eq]
  refine Guarded.ite_throw Nat.not_le.symm fun hlen ↦ ?_
  have hfront : data[0]? = some (data.getD 0 0) := Bytes.getElem?_eq_getD (by omega)
  rw [Guarded.access_bind hfront]
  refine Guarded.ite_throw (by rw [List.head?_eq_getElem?, hfront, Option.some_inj]) fun _ ↦ ?_
  rw [Guarded.access_bind (Header.read_eq (by omega))]
  refine Guarded.ite_throw Nat.not_le.symm fun hmin ↦ ?_
  refine Guarded.ite_throw Nat.not_le.symm fun hdeclared ↦ ?_
  have hrear : data[Header.declaredLen data - 1]? = some (data.getD (Header.declaredLen data - 1) 0) :=
    Bytes.getElem?_eq_getD (by omega)
  rw [Guarded.access_bind hrear]
  refine Guarded.ite_throw (by rw [hrear, Option.some_inj]) fun _ ↦ ?_
  rw [Guarded.access_bind (readFlags_eq (by omega))]
  exact readFields_eq (by omega) (by omega)

theorem readNested_eq (s : Schema) (data : Bytes) :
    s.readNested data = within ((s.decodeNested? data).map View.table) := by
  have hover : s.nestedOverhead = lengthWidth + s.flagWidth.bytes := rfl
  rw [decodeNested?_eq]
  simp only [nestedChecks, checked_cons, checked_nil, decide_eq_true_eq]
  refine Guarded.ite_throw Nat.not_le.symm fun hlen ↦ ?_
  rw [Guarded.access_bind (Bytes.indexed_eq (by omega)), List.drop_zero]
  refine Guarded.ite_throw Nat.not_le.symm fun hend ↦ ?_
  refine Guarded.ite_throw Nat.not_le.symm fun hmin ↦ ?_
  have hlenOf : Bytes.ofLE (data.take lengthWidth) = nestedLen data := rfl
  rw [Guarded.access_bind (readFlags_eq (by omega))]
  exact readFields_eq (by omega) hend

end Schema
namespace Table

variable (t : Table) (i : Nat)

def slot? : Option Slot := if i < t.fieldCount then t.slots[i]? else some .absent

def isPresent? : Option Bool :=
  if i < t.fieldCount then t.slots[i]?.map (· != .absent) else some false

def get? (α : Type) [Scalar α] : Option (Option α) := do
  match ← t.slot? i with
  | .fixed _ bs =>
    if bs.length = Scalar.width α then
      let content ← bs.slice? 0 (Scalar.width α)
      return some (Scalar.ofBytes content)
    else return none
  | _ => return none

def charsText? : Option (Option String) := do
  match ← t.slot? i with
  | .fixed .char bs =>
    let content ← bs.slice? 0 (bs.findIdx (· == 0))
    return Bytes.text? content
  | _ => return none

end Table

def Triple.ofSlices? (α : Type) [Scalar α] (bs : Bytes) : Option (Triple α) := do
  let w := Scalar.width α
  let x ← bs.slice? 0 w
  let y ← bs.slice? w (2 * w)
  let z ← bs.slice? (2 * w) (3 * w)
  return ⟨Scalar.ofBytes x, Scalar.ofBytes y, Scalar.ofBytes z⟩

def PacketIter.advance? (it : PacketIter) : Option (Option (Bytes × PacketIter)) :=
  if it.remaining = 0 ∨ it.region.length < lengthWidth then some none
  else do
    let word ← it.region.indexed lengthWidth 0
    let len := min (Bytes.ofLE word + lengthWidth) it.region.length
    let element ← it.region.slice? 0 len
    let rest ← it.region.slice? len it.region.length
    return some (element, ⟨rest, it.remaining - 1⟩)

/-- The accessors of a view find all that they ask for in the table it is kept in. -/
structure View.Bounded (d : View) : Prop where
  room : d.table.slots.length = Schema.maxFields
  slot (i : Nat) : d.table.slot? i = some (d.slot i)
  isPresent (i : Nat) : d.table.isPresent? i = some (d.isPresent i)
  get (α : Type) [Scalar α] (i : Nat) : d.table.get? i α = some (d.get i α)
  triple (α : Type) [Scalar α] (i : Nat) (bs : Bytes) : d.fixed i = some bs →
    bs.length = Scalar.width (Triple α) → Triple.ofSlices? α bs = some (Scalar.ofBytes bs)
  charsText (i : Nat) : d.table.charsText? i = some (d.charsText i)
  advance (it : PacketIter) : it.advance? = some it.next?

theorem PacketIter.advance?_eq (it : PacketIter) : it.advance? = some it.next? := by
  unfold advance? next?
  by_cases h : it.remaining = 0 ∨ it.region.length < lengthWidth
  · rw [if_pos h, if_pos h]
  · rw [if_neg h, if_neg h, Bytes.indexed_eq (by omega), List.drop_zero]
    simp only [Option.bind_eq_bind, Option.bind_some, Bytes.slice?_zero (Nat.min_le_right ..),
      Bytes.slice?_length (Nat.min_le_right ..)]
    rfl

theorem Triple.ofSlices?_eq {α : Type} [Scalar α] {bs : Bytes}
    (h : bs.length = Scalar.width (Triple α)) : ofSlices? α bs = some (Scalar.ofBytes bs) := by
  have hw : bs.length = 3 * Scalar.width α := h
  have hx : bs.slice? 0 (Scalar.width α) = some (bs.take (Scalar.width α)) :=
    Bytes.slice?_zero (by omega)
  have hy : bs.slice? (Scalar.width α) (Scalar.width α + Scalar.width α) =
      some ((bs.drop (Scalar.width α)).take (Scalar.width α)) := Bytes.slice?_eq (by omega)
  have hz : bs.slice? (2 * Scalar.width α) (3 * Scalar.width α) = some (bs.drop (2 * Scalar.width α)) := by
    rw [← hw]
    exact Bytes.slice?_length (by omega)
  rw [← Nat.two_mul] at hy
  rw [ofSlices?, hx, hy, hz, Nat.two_mul, ← List.drop_drop]
  rfl

theorem Bytes.slice?_takeWhile (bs : Bytes) :
    bs.slice? 0 (bs.findIdx (· == 0)) = some (bs.takeWhile (· ≠ 0)) := by
  rw [slice?_zero List.findIdx_le_length, List.takeWhile_eq_take_findIdx_not]
  simp only [ne_eq, decide_not, Bool.not_not]
  rfl

namespace View

variable {d : View} {i : Nat}

theorem table_getElem? (hi : i < d.slots.length) : d.table.slots[i]? = some (d.slot i) := by
  rw [table, List.getElem?_append_left hi, slot, List.getD_eq_getElem?_getD, List.getElem?_eq_getElem hi,
    Option.getD_some]

theorem table_slot? (d : View) (i : Nat) : d.table.slot? i = some (d.slot i) := by
  have hcount : d.table.fieldCount = d.slots.length := rfl
  by_cases hi : i < d.slots.length
  · rw [Table.slot?, hcount, if_pos hi, table_getElem? hi]
  · rw [Table.slot?, hcount, if_neg hi, slot_of_length_le (Nat.le_of_not_lt hi)]

theorem table_isPresent? (d : View) (i : Nat) : d.table.isPresent? i = some (d.isPresent i) := by
  have hcount : d.table.fieldCount = d.slots.length := rfl
  by_cases hi : i < d.slots.length
  · rw [Table.isPresent?, hcount, if_pos hi, table_getElem? hi]
    rfl
  · rw [Table.isPresent?, hcount, if_neg hi, isPresent, slot_of_length_le (Nat.le_of_not_lt hi)]
    rfl

theorem table_get? (d : View) (α : Type) [Scalar α] (i : Nat) :
    d.table.get? i α = some (d.get i α) := by
  rw [Table.get?, d.table_slot?, View.get, fixed]
  cases d.slot i with
  | fixed ty bs =>
    by_cases hw : bs.length = Scalar.width α
    · simp only [Option.bind_eq_bind, Option.bind_some, ← hw,
        Bytes.slice?_zero (Nat.le_refl _), List.take_length]
      rfl
    · simp only [Option.bind_eq_bind, Option.bind_some, if_neg hw]
      rfl
  | _ => rfl

theorem table_charsText? (d : View) (i : Nat) : d.table.charsText? i = some (d.charsText i) := by
  rw [Table.charsText?, d.table_slot?, View.charsText, chars]
  cases d.slot i with
  | fixed ty bs =>
    cases ty with
    | char =>
      simp only [Option.bind_eq_bind, Option.bind_some, Bytes.slice?_takeWhile]
      rfl
    | _ => rfl
  | _ => rfl

theorem bounded (h : d.slots.length ≤ Schema.maxFields) : d.Bounded where
  room := by
    rw [table, List.length_append, List.length_replicate]
    omega
  slot := d.table_slot?
  isPresent := d.table_isPresent?
  get := d.table_get?
  triple _ _ _ _ _ := Triple.ofSlices?_eq
  charsText := d.table_charsText?
  advance := PacketIter.advance?_eq

end View
end GameHost
