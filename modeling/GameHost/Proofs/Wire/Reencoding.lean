import GameHost.Proofs.Wire.Extent
import GameHost.Proofs.Wire.RoundTrip
import GameHost.Proofs.Wire.Slots

namespace GameHost

namespace View

variable (d : View)

def value? (i : Nat) : Option FieldValue :=
  (d.fixed i).map .raw <|> (d.block i).map .block <|> (d.packet i).map .packet <|>
    (d.packetCount i).map fun _ ↦ .packets (d.packets i).toList

theorem slot_of_lt {d : View} {i : Nat} (hi : i < d.slots.length) : d.slot i = d.slots[i] := by
  rw [slot, List.getD_eq_getElem?_getD, List.getElem?_eq_getElem hi, Option.getD_some]

theorem value?_eq (i : Nat) : d.value? i = (d.slot i).value? := by
  unfold value? fixed block packet packetCount packets
  cases d.slot i <;> rfl

/-- The view without empty arrays and idle flags. -/
def tidy : View where
  header := d.header
  flags := flagWord (d.slots.map (·.tidy != .absent))
  slots := d.slots.map Slot.tidy

/-- The views `d` and `d'` of messages of one schema differ only in that arrays without elements are
absent in `d'`, and that it has the flags of those fields that are present and no others. -/
structure Tidied (s : Schema) (d d' : View) : Prop where
  header : d'.header = d.header
  bit (i : Nat) : d'.flags.testBit i =
    (decide (i < s.size) && d.flags.testBit i && (d.packetCount i != some 0))
  slots : d'.slots = d.slots.map Slot.tidy

end View

/-- The fields fill the region, no flag is idle and no array is empty. -/
structure Schema.Compact (s : Schema) (d : View) (region : Bytes) : Prop where
  full : ∃ units readings, Parses d.flags 0 s.fields units readings ∧ region = units.flatten
  flags (i : Nat) : s.size ≤ i → d.flags.testBit i = false
  arrays (i : Nat) : d.packetCount i ≠ some 0

namespace Message

variable {m : Message}

/-- The message of a view, made anew. -/
def ofView (s : Schema) (d : View) : Message :=
  (List.range s.size).foldl (fun m i ↦ m.setOpt i (d.value? i)) (.ofSchema s)

theorem setOpt_eq_put {i : Nat} (h : i < m.schema.size) (v : Option FieldValue) :
    m.setOpt i v = m.put i v := by
  cases v with
  | none => rfl
  | some v => exact if_pos h

theorem values_put (m : Message) (i : Nat) (v : Option FieldValue) :
    (m.put i v).values = m.values.set i v := rfl

theorem foldl_setOpt (s : Schema) (d : View) {k : Nat} (hk : k ≤ s.size) :
    let m := (List.range k).foldl (fun m i ↦ m.setOpt i (d.value? i)) (ofSchema s)
    m.schema = s ∧ m.badIndex = none ∧
      m.values = (List.range k).map d.value? ++ List.replicate (s.size - k) none := by
  induction k with
  | zero => exact ⟨rfl, rfl, rfl⟩
  | succ k ih =>
    obtain ⟨hschema, hbad, hvalues⟩ := ih (Nat.le_of_succ_le hk)
    have hlen : ((List.range k).map d.value?).length = k := by simp
    obtain ⟨room, hroom⟩ : ∃ room, s.size - k = room + 1 := ⟨s.size - k - 1, by omega⟩
    have hrest : s.size - (k + 1) = room := by omega
    rw [List.range_succ, List.foldl_append, List.foldl_cons, List.foldl_nil,
      setOpt_eq_put (by rw [hschema]; exact hk)]
    refine ⟨hschema, hbad, ?_⟩
    rw [values_put, hvalues, hroom, hrest, List.set_append_right _ _ (Nat.le_of_eq hlen), hlen,
      Nat.sub_self, List.replicate_succ, List.set_cons_zero, List.map_append, List.append_assoc]
    rfl

theorem schema_ofView (s : Schema) (d : View) : (ofView s d).schema = s :=
  (foldl_setOpt s d (Nat.le_refl _)).1

theorem badIndex_ofView (s : Schema) (d : View) : (ofView s d).badIndex = none :=
  (foldl_setOpt s d (Nat.le_refl _)).2.1

theorem values_ofView {s : Schema} {d : View} (h : d.slots.length = s.size) :
    (ofView s d).values = d.slots.map Slot.value? := by
  have hvalues : (ofView s d).values = (List.range s.size).map d.value? := by
    have hall := (foldl_setOpt s d (Nat.le_refl s.size)).2.2
    rwa [Nat.sub_self, List.replicate_zero, List.append_nil] at hall
  rw [hvalues]
  apply List.ext_getElem
  · simp [h]
  · intro i hi hi'
    have hslot : i < d.slots.length := by simpa using hi'
    rw [List.getElem_map, List.getElem_map, List.getElem_range, d.value?_eq, View.slot_of_lt hslot]

/-- The slots of fields are measured with the sizes, and written as the units, of what is left of them
when tidied. -/
theorem measured_of_fits {specs : List FieldSpec} {slots : List Slot}
    (h : List.Forall₂ Slot.Fits specs slots) :
    List.Forall₂ Measured (specs.zip (slots.map Slot.value?)) (slots.map (·.tidy.size?)) ∧
      (specs.zip (slots.map Slot.value?)).map unitOf = slots.map (·.tidy.unit) := by
  induction h with
  | nil => exact ⟨.nil, rfl⟩
  | @cons spec slot specs slots hslot _ ih =>
    obtain ⟨hmeasured, hunit⟩ := hslot.measured
    refine ⟨.cons hmeasured ih.1, ?_⟩
    rw [List.map_cons, List.zip_cons_cons, List.map_cons, hunit, ih.2, List.map_cons]

section ofView

variable {s : Schema} {d : View} {region rest : Bytes}

theorem entries_ofView (h : List.Forall₂ Slot.Fits s.fields d.slots) :
    (ofView s d).entries = s.fields.zip (d.slots.map Slot.value?) := by
  rw [entries, schema_ofView, values_ofView h.length_eq.symm]

theorem body_ofView (h : List.Forall₂ Slot.Fits s.fields d.slots) :
    (ofView s d).body = (d.slots.map (·.tidy.unit)).flatten := by
  rw [body_eq, units, entries_ofView h, (measured_of_fits h).2]

theorem measure_ofView (h : List.Forall₂ Slot.Fits s.fields d.slots) :
    (ofView s d).measure = .ok (d.tidy.flags, (ofView s d).body.length) := by
  have hmeasured := entries_ofView h ▸ (measured_of_fits h).1
  have hpresent : (d.slots.map (·.tidy.size?)).map Option.isSome = d.slots.map (·.tidy != .absent) := by
    simp only [List.map_map, Function.comp_def, Slot.isSome_size?]
  rw [measure_of_measured (badIndex_ofView s d) hmeasured, hpresent]
  rfl

theorem viewOf_ofView (h : List.Forall₂ Slot.Fits s.fields d.slots) :
    s.viewOf d.header d.tidy.flags (ofView s d).body = .ok d.tidy := by
  have htidy : List.Forall₂ Slot.Fits s.fields (d.slots.map Slot.tidy) := by
    rw [List.forall₂_map_right_iff]
    exact h.imp fun _ _ hslot ↦ hslot.tidy
  have hbits (j : Nat) : d.tidy.flags.testBit (0 + j) =
      ((d.slots.map Slot.tidy).map (· != .absent)).getD j false := by
    rw [Nat.zero_add, View.tidy, testBit_flagWord, List.map_map]
    rfl
  have hread := Slot.listOfBytes_of_fits htidy hbits []
  rw [List.append_nil, List.map_map] at hread
  rw [body_ofView h]
  exact Except.bind_eq_ok.mpr ⟨_, hread, rfl⟩

theorem units_tidy_sublist (slots : List Slot) :
    (slots.map (·.tidy.unit)).flatten.Sublist (slots.map Slot.unit).flatten := by
  induction slots with
  | nil => exact List.Sublist.refl _
  | cons slot slots ih =>
    rw [List.map_cons, List.flatten_cons, List.map_cons, List.flatten_cons]
    exact slot.unit_tidy_sublist.append ih

theorem length_body_ofView_le (h : Slot.listOfBytes d.flags 0 s.fields region = .ok (d.slots, rest)) :
    (ofView s d).body.length ≤ region.length := by
  obtain ⟨hfits, hregion, -⟩ := Slot.fits_of_listOfBytes h
  have hle := (units_tidy_sublist d.slots).length_le
  rw [body_ofView hfits, hregion, List.length_append]
  omega

theorem tidied_tidy (h : Slot.listOfBytes d.flags 0 s.fields region = .ok (d.slots, rest)) :
    View.Tidied s d d.tidy := by
  obtain ⟨hfits, -, hbits⟩ := Slot.fits_of_listOfBytes h
  have hsize : d.slots.length = s.size := hfits.length_eq.symm
  refine ⟨rfl, fun i ↦ ?_, rfl⟩
  rw [View.tidy, testBit_flagWord, List.getD_eq_getElem?_getD, List.getElem?_map, ← hsize]
  by_cases hi : i < d.slots.length
  · have hslot := View.slot_of_lt hi
    have hbit : d.flags.testBit i = (d.slot i != .absent) := by
      have hflag := hbits i hi
      rwa [Nat.zero_add] at hflag
    have htidy := Slot.tidy_ne_absent d i
    rw [← hbit, hslot] at htidy
    rw [List.getElem?_eq_getElem hi, Option.map_some, Option.getD_some, htidy]
    simp [hi]
  · rw [List.getElem?_eq_none (Nat.le_of_not_lt hi)]
    simp [hi]

theorem map_tidy_of_filled (h : ∀ i, d.packetCount i ≠ some 0) : d.slots.map Slot.tidy = d.slots := by
  apply List.ext_getElem
  · rw [List.length_map]
  · intro i _ hi
    have hslot := View.slot_of_lt hi
    have hcount := h i
    rw [View.packetCount, hslot] at hcount
    rw [List.getElem_map]
    cases hs : d.slots[i] with
    | array count region =>
      have hzero : count ≠ 0 := by
        rintro rfl
        rw [hs] at hcount
        exact hcount rfl
      simp only [Slot.tidy, hzero, if_false]
    | _ => rfl

theorem ofView_of_compact (h : Slot.listOfBytes d.flags 0 s.fields region = .ok (d.slots, rest))
    (hc : s.Compact d region) : (ofView s d).body = region ∧ d.tidy.flags = d.flags := by
  obtain ⟨⟨units, readings, hparses, hfull⟩, hflags, harrays⟩ := hc
  obtain ⟨hfits, hregion, -⟩ := Slot.fits_of_listOfBytes h
  have hrest : rest = [] := by
    obtain ⟨found, hfound, -⟩ := hparses.listOfBytes []
    rw [List.append_nil, ← hfull, h] at hfound
    exact (Prod.mk.inj (Except.ok.inj hfound)).2
  have hunits : d.slots.map (·.tidy.unit) = (d.slots.map Slot.tidy).map Slot.unit := by
    rw [List.map_map]
    rfl
  constructor
  · rw [body_ofView hfits, hregion, hrest, List.append_nil, hunits, map_tidy_of_filled harrays]
  · apply Nat.eq_of_testBit_eq
    intro i
    rw [(tidied_tidy h).bit]
    by_cases hi : i < s.size
    · simp [hi, harrays i]
    · simp [hi, hflags i (Nat.le_of_not_lt hi)]

end ofView

end Message

/-- The `n` bytes in front of `out` are a message made anew from the view `d` of what stands in front of
`data`, up to `stop`. -/
structure Restored (s : Schema) (region : Bytes) (d : View) (data : Bytes) (stop : Nat)
    (decode : Bytes → Except Error View) (n : Nat) (out : Bytes) : Prop where
  length_le : n ≤ stop
  decodes : ∃ d', decode (out.take n) = .ok d' ∧ d.Tidied s d'
  exact : s.Compact d region → out.take n = data.take stop

namespace Schema

variable {s : Schema} {data buf : Bytes} {d : View}

/-- A view is what the reader found in the region. -/
theorem listOfBytes_of_viewOf {header : Option Header} {flags : Nat} {region : Bytes}
    (h : s.viewOf header flags region = .ok d) : d.header = header ∧ d.flags = flags ∧
      ∃ rest, Slot.listOfBytes d.flags 0 s.fields region = .ok (d.slots, rest) := by
  obtain ⟨⟨slots, rest⟩, hslots, hd⟩ := Except.bind_eq_ok.mp h
  obtain rfl := Except.pure_eq_ok.mp hd
  exact ⟨rfl, rfl, rest, hslots⟩

theorem tidy_flags_lt (h : List.Forall₂ Slot.Fits s.fields d.slots) :
    d.tidy.flags < Bytes.limit s.flagWidth.bytes := by
  have hlt := Message.word_lt_of_measure (Message.measure_ofView h)
  rwa [Message.schema_ofView] at hlt

theorem restored_of_decodeTop (h : s.decodeTop data = .ok d)
    (hroom : Header.declaredLen data ≤ buf.length) :
    ∃ header n out, d.header = some header ∧ (Message.ofView s d).encodeTop header buf = (.ok n, out) ∧
      Restored s (s.topRegion data) d data (Header.declaredLen data) s.decodeTop n out := by
  rw [decodeTop, decodeTop?_eq] at h
  obtain ⟨holds, hview⟩ := checked_eq_ok.mp (Except.mapError_eq_ok.mp h)
  obtain ⟨hheader, hflags, rest, hslots⟩ := listOfBytes_of_viewOf hview
  obtain ⟨hfits, -⟩ := Slot.fits_of_listOfBytes hslots
  have hbody := Message.length_body_ofView_le hslots
  have hlen := length_topRegion holds
  have hmax := Header.declaredLen_le data
  have hsize : s.topOverhead + (Message.ofView s d).body.length + 1 ≤ maxPacketSize := by omega
  have hencode := Message.encodeTop_of_measure (Header.ofBytes data) buf (Message.measure_ofView hfits)
  rw [Message.schema_ofView] at hencode
  have htake : (topForm (Header.ofBytes data) s.flagWidth d.tidy.flags (Message.ofView s d).body ++
      buf.drop (s.topOverhead + (Message.ofView s d).body.length + 1)).take
        (s.topOverhead + (Message.ofView s d).body.length + 1) =
      topForm (Header.ofBytes data) s.flagWidth d.tidy.flags (Message.ofView s d).body :=
    take_topForm rfl
  refine ⟨_, _, _, hheader, hencode hsize (by omega), by omega, ⟨d.tidy, ?_, ?_⟩, ?_⟩
  · have hdecode := decodeTop?_topForm (h := Header.ofBytes data) (tidy_flags_lt hfits) hsize []
    rw [htake, decodeTop, ← List.append_nil (topForm ..), hdecode, ← hheader,
      Message.viewOf_ofView hfits]
    rfl
  · exact Message.tidied_tidy hslots
  · intro hcompact
    obtain ⟨hsame, hword⟩ := Message.ofView_of_compact hslots hcompact
    rw [htake, hsame, hword, hflags, take_declaredLen holds]

theorem restored_of_decodeNested (h : s.decodeNested data = .ok d)
    (hroom : lengthWidth + nestedLen data ≤ buf.length) :
    ∃ n out, (Message.ofView s d).encodeNested buf = (.ok n, out) ∧
      Restored s (s.nestedRegion data) d data (lengthWidth + nestedLen data) s.decodeNested n out := by
  rw [decodeNested, decodeNested?_eq] at h
  obtain ⟨holds, hview⟩ := checked_eq_ok.mp (Except.mapError_eq_ok.mp h)
  obtain ⟨hheader, hflags, rest, hslots⟩ := listOfBytes_of_viewOf hview
  obtain ⟨hfits, -⟩ := Slot.fits_of_listOfBytes hslots
  have hbody := Message.length_body_ofView_le hslots
  have hlen := length_nestedRegion holds
  have hmax : nestedLen data < Bytes.limit lengthWidth := Bytes.ofLE_take_lt lengthWidth data
  have hlimit : Bytes.limit lengthWidth = maxPacketSize + 1 := rfl
  have hover : s.nestedOverhead = lengthWidth + s.flagWidth.bytes := rfl
  have hsize : s.flagWidth.bytes + (Message.ofView s d).body.length ≤ maxPacketSize := by omega
  have hencode := Message.encodeNested_of_measure buf (Message.measure_ofView hfits)
  rw [Message.schema_ofView] at hencode
  have htake : (nestedForm s.flagWidth d.tidy.flags (Message.ofView s d).body ++
      buf.drop (s.nestedOverhead + (Message.ofView s d).body.length)).take
        (s.nestedOverhead + (Message.ofView s d).body.length) =
      nestedForm s.flagWidth d.tidy.flags (Message.ofView s d).body :=
    take_nestedForm rfl
  refine ⟨_, _, hencode hsize (by omega), by omega, ⟨d.tidy, ?_, ?_⟩, ?_⟩
  · have hdecode := decodeNested?_nestedForm (tidy_flags_lt hfits) hsize []
    rw [htake, decodeNested, ← List.append_nil (nestedForm ..), hdecode, ← hheader,
      Message.viewOf_ofView hfits]
    rfl
  · exact Message.tidied_tidy hslots
  · intro hcompact
    obtain ⟨hsame, hword⟩ := Message.ofView_of_compact hslots hcompact
    rw [htake, hsame, hword, hflags, take_nestedLen holds]

end Schema

/-- Whatever a decoder accepts, the message made anew from its view is encoded into any buffer that has
room for what was read. -/
theorem reencode_of_decode (s : Schema) (data buf : Bytes) (d : View) :
    (s.decodeTop data = .ok d → Header.declaredLen data ≤ buf.length →
      ∃ header n out, d.header = some header ∧
        (Message.ofView s d).encodeTop header buf = (.ok n, out) ∧
        Restored s (s.topRegion data) d data (Header.declaredLen data) s.decodeTop n out) ∧
    (s.decodeNested data = .ok d → lengthWidth + Schema.nestedLen data ≤ buf.length →
      ∃ n out, (Message.ofView s d).encodeNested buf = (.ok n, out) ∧
        Restored s (s.nestedRegion data) d data (lengthWidth + Schema.nestedLen data) s.decodeNested
          n out) :=
  ⟨Schema.restored_of_decodeTop, Schema.restored_of_decodeNested⟩

theorem compact_empty_block :
    Schema.sample.Compact ⟨none, 2, [.absent, .block [], .absent]⟩ [0, 0] where
  full := ⟨[[], [0, 0], []], _, .absent rfl (.present rfl (.block rfl rfl) (.absent rfl (.nil 3))), rfl⟩
  flags i hi := by
    have hlt : 2 < 2 ^ i := Nat.lt_of_lt_of_le (by decide) (Nat.pow_le_pow_right Nat.two_pos hi)
    exact Nat.testBit_lt_two_pow hlt
  arrays i := by
    match i with
    | 0 | 1 | 2 => simp [View.packetCount, View.slot]
    | i + 3 => simp [View.packetCount, View.slot]

theorem reencode_of_decode_loose :
    (∃ d header n out, Schema.sample.decodeTop (loose rearGuard) = .ok d ∧ d.header = some header ∧
      (Message.ofView Schema.sample d).encodeTop header (List.replicate 21 0xEE) = (.ok n, out) ∧
      Restored Schema.sample (Schema.sample.topRegion (loose rearGuard)) d (loose rearGuard) 21
        Schema.sample.decodeTop n out) ∧
    (∃ d n out, Schema.sample.decodeNested [3, 0, 2, 0, 0, 7] = .ok d ∧
      (Message.ofView Schema.sample d).encodeNested (List.replicate 6 0xEE) = (.ok n, out) ∧
      out.take n = [3, 0, 2, 0, 0]) := by
  have htop : Schema.sample.decodeTop (loose rearGuard) =
      .ok ⟨some .blank, 0x85, [.fixed .uint16 [2, 1], .absent, .array 1 [0, 0]]⟩ := rfl
  have hnested : Schema.sample.decodeNested [3, 0, 2, 0, 0, 7] =
      .ok ⟨none, 2, [.absent, .block [], .absent]⟩ := rfl
  obtain ⟨header, n, out, hrest⟩ :=
    (reencode_of_decode _ _ (List.replicate 21 0xEE) _).1 htop (by decide)
  obtain ⟨k, short, hencode, hrestored⟩ :=
    (reencode_of_decode _ _ (List.replicate 6 0xEE) _).2 hnested (by decide)
  exact ⟨⟨_, header, n, out, htop, hrest⟩, _, k, short, hnested, hencode,
    hrestored.exact compact_empty_block⟩

end GameHost
