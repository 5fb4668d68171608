import GameHost.Proofs.Wire.Reencoding

namespace GameHost

/-- The fields of `old` come first in `new`, and the flag words are of one width. -/
structure Schema.Extends (new old : Schema) : Prop where
  flagWidth : new.flagWidth = old.flagWidth
  fields : old.fields <+: new.fields

namespace Slot

variable {flags i : ℕ} {specs : List FieldSpec} {bs : Bytes}

theorem listOfBytes_append (specs more : List FieldSpec) (i : ℕ) (bs : Bytes) :
    listOfBytes flags i (specs ++ more) bs = (do
      let (slots, rest) ← listOfBytes flags i specs bs
      let (others, rest) ← listOfBytes flags (i + specs.length) more rest
      return (slots ++ others, rest)) := by
  induction specs generalizing i bs with
  | nil =>
    simp only [List.nil_append, listOfBytes, List.length_nil, Nat.add_zero]
    exact (bind_pure _).symm
  | cons spec specs ih =>
    have hlength : i + (spec :: specs).length = i + 1 + specs.length := by
      rw [List.length_cons]
      omega
    simp only [List.cons_append, listOfBytes, ih, hlength]
    split <;> simp only [bind_assoc, pure_bind, List.cons_append]

theorem listOfBytes_of_idle (hidle : ∀ j, flags.testBit (i + j) = false) :
    listOfBytes flags i specs bs = .ok (List.replicate specs.length .absent, bs) := by
  induction specs generalizing i with
  | nil => rfl
  | cons spec specs ih =>
    have hrest : ∀ j, flags.testBit (i + 1 + j) = false := fun j ↦ by
      rw [Nat.add_assoc]
      exact hidle (1 + j)
    have hbit : flags.testBit i = false := hidle 0
    rw [listOfBytes, hbit, ih hrest]
    rfl

end Slot

namespace View

variable (d : View) (k i : ℕ)

def cut : View := { d with slots := d.slots.take k }

def fill : View := { d with slots := d.slots ++ List.replicate k .absent }

theorem slot_cut : (d.cut k).slot i = if i < k then d.slot i else .absent := by
  simp only [slot, cut, List.getD_eq_getElem?_getD, List.getElem?_take]
  split <;> rfl

theorem slot_fill : (d.fill k).slot i = d.slot i := by
  simp only [slot, fill, List.getD_eq_getElem?_getD]
  by_cases hi : i < d.slots.length
  · rw [List.getElem?_append_left hi]
  · have hi := Nat.le_of_not_lt hi
    rw [List.getElem?_append_right hi, List.getElem?_eq_none hi, List.getElem?_replicate]
    split <;> rfl

theorem reading_cut : (d.cut k).reading i = if i < k then d.reading i else .absent := by
  rw [reading_eq, slot_cut, reading_eq]
  split <;> rfl

theorem reading_fill : (d.fill k).reading i = d.reading i := by
  rw [reading_eq, slot_fill, reading_eq]

theorem get_congr {d d' : View} {i : ℕ} (h : d'.reading i = d.reading i) (α : Type) [Scalar α] :
    d'.get i α = d.get i α := by
  rw [get_eq, get_eq, h]

/-- The view tells of the first `k` fields what the message was given for them, and of no others. The flag word is that
of the message. -/
structure CarriesFirst (m : Message) : Prop where
  reading (i : ℕ) : d.reading i = if i < k then m.reading i else .absent
  bit (i : ℕ) : d.flags.testBit i = (m.reading i).present
  scalar (α : Type) [Scalar α] (a : α) (i : ℕ) :
    i < k → m.values[i]? = some (some (.scalar a)) → d.get i α = some a

end View

theorem Message.reading_of_size_le {m : Message} {i : ℕ} (hi : m.schema.size ≤ i) : m.reading i = .absent := by
  have hnone : m.schema.fields[i]? = none := List.getElem?_eq_none hi
  rw [reading, hnone]

namespace View.Carries

variable {d : View} {m : Message}

theorem idle (h : d.Carries m) (i : ℕ) (hi : m.schema.size ≤ i) : d.flags.testBit i = false := by
  rw [h.bit, Message.reading_of_size_le hi]
  rfl

theorem cut (h : d.Carries m) (k : ℕ) : (d.cut k).CarriesFirst k m where
  reading i := by rw [reading_cut, h.reading]
  bit := h.bit
  scalar α _ a i hi hvalue := by
    have hsame : (d.cut k).reading i = d.reading i := by rw [reading_cut, if_pos hi]
    rw [get_congr hsame, h.scalar α a i hvalue]

theorem fill (h : d.Carries m) (k : ℕ) : (d.fill k).CarriesFirst m.schema.size m where
  reading i := by
    rw [reading_fill, h.reading]
    split
    · rfl
    · next hi => exact Message.reading_of_size_le (Nat.le_of_not_lt hi)
  bit := h.bit
  scalar α _ a i _ hvalue := by rw [get_congr (d.reading_fill k i), h.scalar α a i hvalue]

end View.Carries

namespace Schema

variable {old new : Schema} {header : Option Header} {flags : ℕ} {region data : Bytes} {d : View}
  {checks : List (Bool × DecodeFault)}

namespace Extends

theorem viewOf_eq (h : new.Extends old) (header : Option Header) (flags : ℕ) (region : Bytes) :
    ∃ more, new.size = old.size + more.length ∧ new.viewOf header flags region = (do
      let (slots, rest) ← Slot.listOfBytes flags 0 old.fields region
      let (others, _) ← Slot.listOfBytes flags old.size more rest
      return ⟨header, flags, slots ++ others⟩) := by
  obtain ⟨more, hmore⟩ := h.fields
  refine ⟨more, ?_, ?_⟩
  · rw [size, ← hmore, List.length_append, size]
  · rw [viewOf, ← hmore, Slot.listOfBytes_append]
    simp only [bind_assoc, pure_bind, Nat.zero_add, size]

theorem viewOf_cut (h : new.Extends old) (hview : new.viewOf header flags region = .ok d) :
    old.viewOf header flags region = .ok (d.cut old.size) := by
  obtain ⟨more, -, heq⟩ := h.viewOf_eq header flags region
  rw [heq] at hview
  obtain ⟨⟨slots, rest⟩, hslots, hview⟩ := Except.bind_eq_ok.mp hview
  obtain ⟨⟨others, left⟩, -, hd⟩ := Except.bind_eq_ok.mp hview
  obtain rfl := Except.pure_eq_ok.mp hd
  have hlength : old.size = slots.length := (Slot.fits_of_listOfBytes hslots).1.length_eq
  rw [View.cut, hlength, List.take_left]
  exact Except.bind_eq_ok.mpr ⟨_, hslots, rfl⟩

theorem viewOf_fill (h : new.Extends old) (hview : old.viewOf header flags region = .ok d)
    (hidle : ∀ i, old.size ≤ i → d.flags.testBit i = false) :
    new.viewOf header flags region = .ok (d.fill (new.size - old.size)) := by
  obtain ⟨more, hsize, heq⟩ := h.viewOf_eq header flags region
  obtain ⟨⟨slots, rest⟩, hslots, hd⟩ := Except.bind_eq_ok.mp hview
  obtain rfl := Except.pure_eq_ok.mp hd
  have hmore : new.size - old.size = more.length := by omega
  have hothers : Slot.listOfBytes flags old.size more rest = .ok (List.replicate more.length .absent, rest) :=
    Slot.listOfBytes_of_idle fun j ↦ hidle (old.size + j) (Nat.le_add_right ..)
  rw [heq, View.fill, hmore]
  exact Except.bind_eq_ok.mpr ⟨_, hslots, Except.bind_eq_ok.mpr ⟨_, hothers, rfl⟩⟩

theorem checked_cut (h : new.Extends old)
    (hd : (checked checks (new.viewOf header flags region)).mapError Error.decode = .ok d) :
    (checked checks (old.viewOf header flags region)).mapError Error.decode = .ok (d.cut old.size) := by
  obtain ⟨holds, hview⟩ := checked_eq_ok.mp (Except.mapError_eq_ok.mp hd)
  exact Except.mapError_eq_ok.mpr (checked_eq_ok.mpr ⟨holds, h.viewOf_cut hview⟩)

theorem checked_fill (h : new.Extends old)
    (hd : (checked checks (old.viewOf header flags region)).mapError Error.decode = .ok d)
    (hidle : ∀ i, old.size ≤ i → d.flags.testBit i = false) :
    (checked checks (new.viewOf header flags region)).mapError Error.decode =
      .ok (d.fill (new.size - old.size)) := by
  obtain ⟨holds, hview⟩ := checked_eq_ok.mp (Except.mapError_eq_ok.mp hd)
  exact Except.mapError_eq_ok.mpr (checked_eq_ok.mpr ⟨holds, h.viewOf_fill hview hidle⟩)

theorem decodeTop_eq (h : new.Extends old) (data : Bytes) : new.decodeTop data =
    (checked (old.topChecks data) (new.viewOf (some (Header.ofBytes data)) (old.topFlags data)
      (old.topRegion data))).mapError .decode := by
  rw [decodeTop, Schema.decodeTop?_eq, topChecks, topFlags, topRegion, topOverhead, h.flagWidth]
  rfl

theorem decodeNested_eq (h : new.Extends old) (data : Bytes) : new.decodeNested data =
    (checked (old.nestedChecks data) (new.viewOf none (old.nestedFlags data)
      (old.nestedRegion data))).mapError .decode := by
  rw [decodeNested, Schema.decodeNested?_eq, nestedChecks, nestedFlags, nestedRegion, nestedOverhead, h.flagWidth]
  rfl

theorem decodeTop_cut (h : new.Extends old) (hd : new.decodeTop data = .ok d) :
    old.decodeTop data = .ok (d.cut old.size) := by
  rw [h.decodeTop_eq] at hd
  rw [decodeTop, Schema.decodeTop?_eq]
  exact h.checked_cut hd

theorem decodeNested_cut (h : new.Extends old) (hd : new.decodeNested data = .ok d) :
    old.decodeNested data = .ok (d.cut old.size) := by
  rw [h.decodeNested_eq] at hd
  rw [decodeNested, Schema.decodeNested?_eq]
  exact h.checked_cut hd

theorem decodeTop_fill (h : new.Extends old) (hd : old.decodeTop data = .ok d)
    (hidle : ∀ i, old.size ≤ i → d.flags.testBit i = false) :
    new.decodeTop data = .ok (d.fill (new.size - old.size)) := by
  rw [decodeTop, Schema.decodeTop?_eq] at hd
  rw [h.decodeTop_eq]
  exact h.checked_fill hd hidle

theorem decodeNested_fill (h : new.Extends old) (hd : old.decodeNested data = .ok d)
    (hidle : ∀ i, old.size ≤ i → d.flags.testBit i = false) :
    new.decodeNested data = .ok (d.fill (new.size - old.size)) := by
  rw [decodeNested, Schema.decodeNested?_eq] at hd
  rw [h.decodeNested_eq]
  exact h.checked_fill hd hidle

end Extends
end Schema

/-- Schemas can grow at their end. A message of the shorter schema reads with the longer one as it was, the new fields
absent, and a message of the longer one reads with the shorter one as the fields that this has, whatever the others
hold. -/
theorem decode_encode_extended {old new : Schema} (hext : new.Extends old) (m : Message) (buf rest : Bytes) :
    (m.schema = old →
      (∀ h n out, m.encodeTop h buf = (.ok n, out) → ∃ d, new.decodeTop (out.take n ++ rest) = .ok d ∧
        d.header = some h ∧ d.CarriesFirst old.size m) ∧
      (∀ n out, m.encodeNested buf = (.ok n, out) → ∃ d, new.decodeNested (out.take n ++ rest) = .ok d ∧
        d.header = none ∧ d.CarriesFirst old.size m)) ∧
    (m.schema = new →
      (∀ h n out, m.encodeTop h buf = (.ok n, out) → ∃ d, old.decodeTop (out.take n ++ rest) = .ok d ∧
        d.header = some h ∧ d.CarriesFirst old.size m) ∧
      (∀ n out, m.encodeNested buf = (.ok n, out) → ∃ d, old.decodeNested (out.take n ++ rest) = .ok d ∧
        d.header = none ∧ d.CarriesFirst old.size m)) := by
  refine ⟨?_, ?_⟩
  · rintro rfl
    refine ⟨fun h n out he ↦ ?_, fun n out he ↦ ?_⟩
    · obtain ⟨d, hd, hheader, hcarries⟩ := Message.decodeTop_of_encodeTop he rest
      exact ⟨_, hext.decodeTop_fill hd hcarries.idle, hheader, hcarries.fill _⟩
    · obtain ⟨d, hd, hheader, hcarries⟩ := Message.decodeNested_of_encodeNested he rest
      exact ⟨_, hext.decodeNested_fill hd hcarries.idle, hheader, hcarries.fill _⟩
  · rintro rfl
    refine ⟨fun h n out he ↦ ?_, fun n out he ↦ ?_⟩
    · obtain ⟨d, hd, hheader, hcarries⟩ := Message.decodeTop_of_encodeTop he rest
      exact ⟨_, hext.decodeTop_cut hd, hheader, hcarries.cut _⟩
    · obtain ⟨d, hd, hheader, hcarries⟩ := Message.decodeNested_of_encodeNested he rest
      exact ⟨_, hext.decodeNested_cut hd, hheader, hcarries.cut _⟩

def Schema.grown : Schema :=
  ⟨.one, [⟨.uint16, 1⟩, ⟨.memoryBlock, 1⟩, ⟨.packet, 2⟩, ⟨.char, 1⟩, ⟨.memoryBlock, 1⟩], by decide, by decide⟩

theorem Schema.grown_extends : Schema.grown.Extends .sample := ⟨rfl, by decide⟩

def Message.grown : Message :=
  (((ofSchema .grown).set 0 (.scalar (258 : UInt16))).set 1 (.block [])).set 4 (.block [7, 8])

theorem decode_encode_extended_grown : Schema.grown.Extends .sample ∧
    (Message.sample.encodeTop .blank (List.replicate 20 0xEE) = (.ok 20,
      [0xD6, 20, 0, 0, 0, 0, 0, 0, 0, 0, 0, 0, 0, 5, 2, 1, 1, 0, 0, 0x6B]) ∧
    ∃ d, Schema.grown.decodeTop ([0xD6, 20, 0, 0, 0, 0, 0, 0, 0, 0, 0, 0, 0, 5, 2, 1, 1, 0, 0, 0x6B] ++ [9]) = .ok d ∧
      d.header = some .blank ∧ d.CarriesFirst 3 Message.sample) ∧
    (Message.grown.encodeNested (List.replicate 11 0xEE) = (.ok 11, [9, 0, 19, 2, 1, 0, 0, 2, 0, 7, 8]) ∧
    ∃ d, Schema.sample.decodeNested ([9, 0, 19, 2, 1, 0, 0, 2, 0, 7, 8] ++ [9]) = .ok d ∧
      d.header = none ∧ d.CarriesFirst 3 Message.grown) := by
  have htop : Message.sample.encodeTop .blank (List.replicate 20 0xEE) = (.ok 20,
      [0xD6, 20, 0, 0, 0, 0, 0, 0, 0, 0, 0, 0, 0, 5, 2, 1, 1, 0, 0, 0x6B]) := by
    decide
  have hnested : Message.grown.encodeNested (List.replicate 11 0xEE) =
      (.ok 11, [9, 0, 19, 2, 1, 0, 0, 2, 0, 7, 8]) := by
    decide
  refine ⟨Schema.grown_extends, ⟨htop, ?_⟩, hnested, ?_⟩
  · exact ((decode_encode_extended Schema.grown_extends _ _ [9]).1 rfl).1 _ _ _ htop
  · exact ((decode_encode_extended Schema.grown_extends _ _ [9]).2 rfl).2 _ _ hnested

end GameHost
