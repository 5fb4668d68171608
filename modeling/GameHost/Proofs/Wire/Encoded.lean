import GameHost.Proofs.Access
import GameHost.Proofs.Wire.Form
import GameHost.Wire.Message
import Mathlib.Algebra.Group.Nat.Defs
import Mathlib.Data.List.Forall2

namespace GameHost

open FieldValue (isPacket)

namespace Bytes

theorem padTo_of_length_eq {bs : Bytes} {n : Nat} (h : bs.length = n) : bs.padTo n = bs := by
  simp [padTo, h]

end Bytes

theorem testBit_flagWord (bits : List Bool) (i : Nat) :
    (flagWord bits).testBit i = bits.getD i false := by
  induction bits generalizing i with
  | nil => simp [flagWord]
  | cons b bs ih =>
    have hb : b.toNat < 2 := b.toNat_lt
    cases i with
    | zero =>
      have hmod : (b.toNat + 2 * flagWord bs) % 2 = b.toNat := by omega
      rw [flagWord, Nat.testBit_zero, hmod]
      cases b <;> rfl
    | succ i =>
      have hdiv : (b.toNat + 2 * flagWord bs) / 2 = flagWord bs := by omega
      rw [flagWord, Nat.testBit_succ, hdiv, ih]
      rfl

theorem flagWord_lt (bits : List Bool) : flagWord bits < 2 ^ bits.length := by
  induction bits with
  | nil => simp [flagWord]
  | cons b bs ih =>
    have hb : b.toNat < 2 := b.toNat_lt
    rw [flagWord, List.length_cons, Nat.pow_succ]
    omega

theorem FlagWidth.pow_bits (w : FlagWidth) : 2 ^ w.bits = Bytes.limit w.bytes := by cases w <;> rfl

theorem Schema.pow_size_le (s : Schema) : 2 ^ s.size ≤ Bytes.limit s.flagWidth.bytes := by
  rw [← FlagWidth.pow_bits]
  exact Nat.pow_le_pow_right Nat.two_pos s.length_le

namespace FieldValue

def reading (spec : FieldSpec) : FieldValue → Reading
  | inline bs | raw bs => .ofFixed spec.ty (bs.padTo spec.fixedLen)
  | block bs => .ofBlock bs
  | packet bs => if spec.isPacketArray then .ofPackets [bs] else .ofPacket bs
  | packets [] => .absent
  | packets elements => .ofPackets elements

variable {spec : FieldSpec} {bs : Bytes} {size : Option Nat}

theorem sizeIn_inline : (inline bs).sizeIn spec = .ok size ↔
    spec.ty.isFixed ∧ bs.length = spec.fixedLen ∧ size = some spec.fixedLen := by
  rw [sizeIn]
  grind

theorem sizeIn_raw : (raw bs).sizeIn spec = .ok size ↔
    spec.ty.isFixed ∧ bs.length ≤ spec.fixedLen ∧ size = some spec.fixedLen := by
  rw [sizeIn]
  grind

theorem sizeIn_block : (block bs).sizeIn spec = .ok size ↔
    spec.ty = .memoryBlock ∧ bs.length ≤ maxPacketSize ∧ size = some (lengthWidth + bs.length) := by
  rw [sizeIn]
  grind

theorem sizeIn_packet : (packet bs).sizeIn spec = .ok size ↔ spec.ty = .packet ∧ isPacket bs ∧
    size = some (if spec.isPacketArray then 1 + bs.length else bs.length) := by
  rw [sizeIn]
  grind

theorem sizeIn_packets {elements : List Bytes} : (packets elements).sizeIn spec = .ok size ↔
    spec.isPacketArray ∧ ((elements = [] ∧ size = none) ∨ (elements ≠ [] ∧
      elements.length ≤ spec.count.toNat ∧ elements.length ≤ 255 ∧ (∀ e ∈ elements, isPacket e) ∧
      size = some (1 + elements.flatten.length))) := by
  rw [sizeIn]
  grind

theorem absent_of_sizeIn {v : FieldValue} (h : v.sizeIn spec = .ok none) :
    v.bytesIn spec = [] ∧ v.reading spec = .absent := by
  cases v with
  | inline bs => cases (sizeIn_inline.mp h).2.2
  | raw bs => cases (sizeIn_raw.mp h).2.2
  | block bs => cases (sizeIn_block.mp h).2.2
  | packet bs => cases (sizeIn_packet.mp h).2.2
  | packets elements =>
    obtain ⟨-, ⟨rfl, -⟩ | ⟨-, -, -, -, hsize⟩⟩ := sizeIn_packets.mp h
    · exact ⟨rfl, rfl⟩
    · cases hsize

theorem isPacket_block (h : bs.length ≤ maxPacketSize) :
    isPacket (Bytes.toLE lengthWidth bs.length ++ bs) := by
  have hl : (Bytes.toLE lengthWidth bs.length).length = lengthWidth := Bytes.length_toLE ..
  rw [Bytes.isPacket_iff, List.length_append, hl, List.take_left' hl,
    Bytes.ofLE_toLE_of_lt (Nat.lt_succ_of_le h)]
  omega

theorem spells_of_sizeIn {v : FieldValue} {n : Nat} (h : v.sizeIn spec = .ok (some n)) :
    Spells spec (v.bytesIn spec) (v.reading spec) := by
  cases v with
  | inline bs =>
    obtain ⟨hf, hl, -⟩ := sizeIn_inline.mp h
    rw [reading, Bytes.padTo_of_length_eq hl]
    exact .fixed hf hl
  | raw bs =>
    obtain ⟨hf, hl, -⟩ := sizeIn_raw.mp h
    exact .fixed hf (Bytes.length_padTo hl)
  | block bs =>
    obtain ⟨hb, hl, -⟩ := sizeIn_block.mp h
    have hdrop : (Bytes.toLE lengthWidth bs.length ++ bs).drop lengthWidth = bs :=
      List.drop_left' (Bytes.length_toLE ..)
    have hunit := Spells.block hb (isPacket_block hl)
    rwa [hdrop] at hunit
  | packet bs =>
    obtain ⟨hp, hb, -⟩ := sizeIn_packet.mp h
    cases ha : spec.isPacketArray with
    | false =>
      simp only [bytesIn, reading, ha, Bool.false_eq_true, if_false]
      exact .packet hp ha hb
    | true =>
      simp only [bytesIn, reading, ha, if_true]
      have hcount := spec.one_lt_count ha
      have hunit : Spells spec (1 :: [bs].flatten) (.ofPackets [bs]) :=
        .array ha rfl (Nat.le_of_lt hcount) (by simpa using hb)
      simpa using hunit
  | packets elements =>
    obtain ⟨ha, ⟨-, hsize⟩ | ⟨hne, hroom, hbyte, helements, -⟩⟩ := sizeIn_packets.mp h
    · cases hsize
    · obtain ⟨e, es, rfl⟩ := List.exists_cons_of_ne_nil hne
      have hcount : (UInt8.ofNat (e :: es).length).toNat = (e :: es).length :=
        UInt8.toNat_ofNat_of_lt' (Nat.lt_succ_of_le hbyte)
      exact .array ha hcount (by rw [hcount]; exact hroom) helements

end FieldValue

namespace Message

def unitOf (entry : FieldSpec × Option FieldValue) : Bytes := (entry.2.map (·.bytesIn entry.1)).getD []

def readingOf (entry : FieldSpec × Option FieldValue) : Reading :=
  entry.2.elim .absent (·.reading entry.1)

/-- A field and its size; one without a value has none. -/
def Measured (entry : FieldSpec × Option FieldValue) (size : Option Nat) : Prop :=
  match entry.2 with
  | none => size = none
  | some v => v.sizeIn entry.1 = .ok size

section entries

variable {entry : FieldSpec × Option FieldValue} {entries : List (FieldSpec × Option FieldValue)}
  {size : Option Nat} {sizes : List (Option Nat)}

theorem Measured.absent (h : Measured entry none) : unitOf entry = [] ∧ readingOf entry = .absent := by
  obtain ⟨spec, _ | v⟩ := entry
  · exact ⟨rfl, rfl⟩
  · exact FieldValue.absent_of_sizeIn h

theorem Measured.spells {n : Nat} (h : Measured entry (some n)) :
    Spells entry.1 (unitOf entry) (readingOf entry) := by
  obtain ⟨spec, _ | v⟩ := entry
  · cases h
  · exact FieldValue.spells_of_sizeIn h

theorem Measured.length (h : Measured entry size) : (unitOf entry).length = size.getD 0 := by
  obtain ⟨spec, _ | v⟩ := entry
  · rw [show size = none from h]
    rfl
  · exact FieldValue.length_bytesIn h

theorem sizesFrom_eq_ok {i : Nat} (h : sizesFrom i entries = .ok sizes) :
    List.Forall₂ Measured entries sizes := by
  induction entries generalizing i sizes with
  | nil =>
    rw [sizesFrom] at h
    cases h
    exact .nil
  | cons entry entries ih =>
    obtain ⟨spec, _ | v⟩ := entry
    · rw [sizesFrom] at h
      obtain ⟨more, hmore, hsizes⟩ := Except.bind_eq_ok.mp h
      rw [← Except.pure_eq_ok.mp hsizes]
      exact .cons rfl (ih hmore)
    · rw [sizesFrom] at h
      split at h
      · cases h
      · next size hsize =>
        obtain ⟨more, hmore, hsizes⟩ := Except.bind_eq_ok.mp h
        rw [← Except.pure_eq_ok.mp hsizes]
        exact .cons hsize (ih hmore)

theorem sizesFrom_of_measured (h : List.Forall₂ Measured entries sizes) (i : Nat) :
    sizesFrom i entries = .ok sizes := by
  induction h generalizing i with
  | nil => rfl
  | @cons entry size entries sizes hentry _ ih =>
    have hmore := ih (i + 1)
    obtain ⟨spec, _ | v⟩ := entry
    · rw [show size = none from hentry, sizesFrom]
      exact Except.bind_eq_ok.mpr ⟨_, hmore, rfl⟩
    · have hsize : v.sizeIn spec = .ok size := hentry
      rw [sizesFrom, hsize]
      exact Except.bind_eq_ok.mpr ⟨_, hmore, rfl⟩

/-- Measured fields are written as units that parse, if the bits say which of them are present. -/
theorem parses_of_measured {flags i : Nat} (h : List.Forall₂ Measured entries sizes)
    (bits : ∀ j, flags.testBit (i + j) = (sizes.map Option.isSome).getD j false) :
    Parses flags i (entries.map Prod.fst) (entries.map unitOf) (entries.map readingOf) := by
  induction h generalizing i with
  | nil => exact .nil i
  | @cons entry size entries sizes hentry _ ih =>
    have hmore := ih fun j ↦ by
      rw [Nat.add_assoc, Nat.add_comm 1 j, bits]
      rfl
    have hbit : flags.testBit i = size.isSome := bits 0
    cases size with
    | none =>
      simp only [List.map_cons, hentry.absent.1, hentry.absent.2]
      exact .absent hbit hmore
    | some n => exact .present hbit hentry.spells hmore

theorem length_units (h : List.Forall₂ Measured entries sizes) :
    (entries.map unitOf).flatten.length = bodySize sizes := by
  induction h with
  | nil => rfl
  | cons hentry _ ih =>
    rw [List.map_cons, List.flatten_cons, List.length_append, hentry.length, ih, bodySize]

end entries

variable (m : Message)

def units : List Bytes := m.entries.map unitOf

def readings : List Reading := m.entries.map readingOf

/-- What a view is to tell of field `i`; past the last field there is nothing to tell. -/
def reading (i : Nat) : Reading :=
  match m.schema.fields[i]?, m.values[i]? with
  | some spec, some (some v) => v.reading spec
  | _, _ => .absent

theorem reading_eq (i : Nat) : m.reading i = m.readings.getD i .absent := by
  rw [reading, readings, entries, List.getD_eq_getElem?_getD, List.getElem?_map, List.zip,
    List.getElem?_zipWith]
  cases m.schema.fields[i]? with
  | none => rfl
  | some spec =>
    cases m.values[i]? with
    | none => rfl
    | some v => cases v <;> rfl

variable {m} {flags n : Nat}

theorem measure_eq_ok (h : m.measure = .ok (flags, n)) : ∃ sizes : List (Option Nat),
    List.Forall₂ Measured m.entries sizes ∧ flags = flagWord (sizes.map Option.isSome) ∧
      n = bodySize sizes := by
  unfold measure at h
  split at h
  · cases h
  · obtain ⟨sizes, hsizes, h⟩ := Except.bind_eq_ok.mp h
    obtain ⟨rfl, rfl⟩ := Prod.mk.inj (Except.pure_eq_ok.mp h)
    exact ⟨sizes, sizesFrom_eq_ok hsizes, rfl, rfl⟩

theorem fst_entries (m : Message) : m.entries.map Prod.fst = m.schema.fields :=
  List.map_fst_zip (Nat.le_of_eq m.length_values.symm)

theorem parses_of_measure (h : m.measure = .ok (flags, n)) :
    Parses flags 0 m.schema.fields m.units m.readings := by
  obtain ⟨sizes, hsizes, rfl, -⟩ := measure_eq_ok h
  rw [← fst_entries]
  exact parses_of_measured hsizes fun j ↦ by rw [Nat.zero_add, testBit_flagWord]

theorem body_eq (m : Message) : m.body = m.units.flatten := rfl

theorem length_body_of_measure (h : m.measure = .ok (flags, n)) : m.body.length = n := by
  obtain ⟨sizes, hsizes, -, rfl⟩ := measure_eq_ok h
  exact length_units hsizes

theorem measure_of_measured {sizes : List (Option Nat)} (hbad : m.badIndex = none)
    (h : List.Forall₂ Measured m.entries sizes) :
    m.measure = .ok (flagWord (sizes.map Option.isSome), m.body.length) := by
  have hlen : m.body.length = bodySize sizes := length_units h
  rw [measure, hbad, hlen]
  exact Except.bind_eq_ok.mpr ⟨_, sizesFrom_of_measured h 0, rfl⟩

theorem flags_lt_of_measure (h : m.measure = .ok (flags, n)) : flags < 2 ^ m.schema.size := by
  obtain ⟨sizes, hsizes, rfl, -⟩ := measure_eq_ok h
  have hlen : (sizes.map Option.isSome).length = m.schema.size := by
    rw [List.length_map, ← hsizes.length_eq, entries, List.length_zip, m.length_values]
    exact Nat.min_self _
  rw [← hlen]
  exact flagWord_lt _

theorem word_lt_of_measure (h : m.measure = .ok (flags, n)) :
    flags < Bytes.limit m.schema.flagWidth.bytes :=
  Nat.lt_of_lt_of_le (flags_lt_of_measure h) m.schema.pow_size_le

theorem overwrite_topForm (s : Schema) (h : Header) (flags : Nat) (body buf : Bytes) :
    (((buf.overwrite 0 (h.toBytes (s.topOverhead + body.length + 1))).overwrite headerLen
      (Bytes.toLE s.flagWidth.bytes flags)).overwrite s.topOverhead body).overwrite
        (s.topOverhead + body.length + 1 - 1) [rearGuard] =
      topForm h s.flagWidth flags body ++ buf.drop (s.topOverhead + body.length + 1) := by
  have hh : (h.toBytes (s.topOverhead + body.length + 1)).length = headerLen := Header.length_toBytes ..
  have hw : (Bytes.toLE s.flagWidth.bytes flags).length = s.flagWidth.bytes := Bytes.length_toLE ..
  rw [Bytes.overwrite_zero, Bytes.overwrite_append hh,
    Bytes.overwrite_append (by rw [List.length_append, hh, hw]; rfl),
    Bytes.overwrite_append (by
      simp only [List.length_append, Header.length_toBytes, hw, Schema.topOverhead, Nat.add_sub_cancel])]
  simp only [List.drop_drop, Header.length_toBytes, hw, topForm, List.append_assoc, List.length_singleton,
    Schema.topOverhead]

theorem overwrite_nestedForm (s : Schema) (flags : Nat) (body buf : Bytes) :
    ((buf.overwrite 0 (Bytes.toLE 2 (s.nestedOverhead + body.length - lengthWidth))).overwrite lengthWidth
      (Bytes.toLE s.flagWidth.bytes flags)).overwrite s.nestedOverhead body =
      nestedForm s.flagWidth flags body ++ buf.drop (s.nestedOverhead + body.length) := by
  have hcount : s.nestedOverhead + body.length - lengthWidth = s.flagWidth.bytes + body.length := by
    rw [Schema.nestedOverhead]
    omega
  have hw : (Bytes.toLE s.flagWidth.bytes flags).length = s.flagWidth.bytes := Bytes.length_toLE ..
  have hp : (Bytes.toLE 2 (s.flagWidth.bytes + body.length)).length = lengthWidth := Bytes.length_toLE ..
  rw [hcount, Bytes.overwrite_zero, Bytes.overwrite_append hp,
    Bytes.overwrite_append (by rw [List.length_append, hp, hw]; rfl)]
  simp only [List.drop_drop, Bytes.length_toLE, nestedForm, List.append_assoc, Schema.nestedOverhead,
    lengthWidth]

theorem encodeTop_eq_ok {h : Header} {buf out : Bytes} (he : m.encodeTop h buf = (.ok n, out)) :
    ∃ flags, m.measure = .ok (flags, m.body.length) ∧
      n = m.schema.topOverhead + m.body.length + 1 ∧ n ≤ maxPacketSize ∧ n ≤ buf.length ∧
      out = topForm h m.schema.flagWidth flags m.body ++ buf.drop n := by
  unfold encodeTop at he
  split at he
  · cases he
  · next flags bodyLen hm =>
    have hbody := length_body_of_measure hm
    simp only [← hbody] at he hm
    split at he
    · cases he
    · next hsize =>
      split at he
      · cases he
      · next hroom =>
        obtain ⟨hn, hout⟩ := Prod.mk.inj he
        cases hn
        refine ⟨flags, hm, rfl, by omega, by omega, ?_⟩
        rw [← hout, overwrite_topForm]

theorem encodeTop_of_measure (h : Header) (buf : Bytes) (hm : m.measure = .ok (flags, m.body.length))
    (hsize : m.schema.topOverhead + m.body.length + 1 ≤ maxPacketSize)
    (hroom : m.schema.topOverhead + m.body.length + 1 ≤ buf.length) :
    m.encodeTop h buf = (.ok (m.schema.topOverhead + m.body.length + 1),
      topForm h m.schema.flagWidth flags m.body ++ buf.drop (m.schema.topOverhead + m.body.length + 1)) := by
  rw [encodeTop, hm]
  simp only [Nat.not_lt.mpr hsize, Nat.not_lt.mpr hroom, if_false, overwrite_topForm]

theorem encodeNested_eq_ok {buf out : Bytes} (he : m.encodeNested buf = (.ok n, out)) :
    ∃ flags, m.measure = .ok (flags, m.body.length) ∧
      n = m.schema.nestedOverhead + m.body.length ∧ n ≤ lengthWidth + maxPacketSize ∧
      n ≤ buf.length ∧ out = nestedForm m.schema.flagWidth flags m.body ++ buf.drop n := by
  unfold encodeNested at he
  split at he
  · cases he
  · next flags bodyLen hm =>
    have hbody := length_body_of_measure hm
    simp only [← hbody] at he hm
    split at he
    · cases he
    · next hsize =>
      split at he
      · cases he
      · next hroom =>
        obtain ⟨hn, hout⟩ := Prod.mk.inj he
        cases hn
        refine ⟨flags, hm, rfl, by omega, by omega, ?_⟩
        rw [← hout, overwrite_nestedForm]

theorem encodeNested_of_measure (buf : Bytes) (hm : m.measure = .ok (flags, m.body.length))
    (hsize : m.schema.flagWidth.bytes + m.body.length ≤ maxPacketSize)
    (hroom : m.schema.nestedOverhead + m.body.length ≤ buf.length) :
    m.encodeNested buf = (.ok (m.schema.nestedOverhead + m.body.length),
      nestedForm m.schema.flagWidth flags m.body ++ buf.drop (m.schema.nestedOverhead + m.body.length)) := by
  have hcount : m.schema.nestedOverhead + m.body.length - lengthWidth ≤ maxPacketSize := by
    rw [Schema.nestedOverhead]
    omega
  rw [encodeNested, hm]
  simp only [Nat.not_lt.mpr hcount, Nat.not_lt.mpr hroom, if_false, overwrite_nestedForm]

end Message

end GameHost
