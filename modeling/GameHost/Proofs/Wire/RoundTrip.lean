import GameHost.Proofs.Wire.Encoded

namespace GameHost

/-- The view tells of every field what the message was given for it, and a scalar can be got back as
a value of its type. -/
structure View.Carries (d : View) (m : Message) : Prop where
  reading (i : Nat) : d.reading i = m.reading i
  bit (i : Nat) : d.flags.testBit i = (m.reading i).present
  scalar (α : Type) [Scalar α] (a : α) (i : Nat) :
    m.values[i]? = some (some (.scalar a)) → d.get i α = some a

namespace Message

variable {m : Message} {flags n : Nat}

theorem sizeIn_of_measure (h : m.measure = .ok (flags, n)) {i : Nat} {v : FieldValue}
    (hv : m.values[i]? = some (some v)) :
    ∃ spec size, m.schema.fields[i]? = some spec ∧ v.sizeIn spec = .ok size := by
  obtain ⟨sizes, hsizes, -, -⟩ := measure_eq_ok h
  obtain ⟨hi, hget⟩ := List.getElem?_eq_some_iff.mp hv
  have hfields : i < m.schema.fields.length := by
    rw [m.length_values] at hi
    exact hi
  have hentries : i < m.entries.length := by
    rw [entries, List.length_zip]
    exact Nat.lt_min.mpr ⟨hfields, hi⟩
  have hentry : m.entries[i] = (m.schema.fields[i], some v) := by
    simp only [entries, List.getElem_zip, hget]
  have hmeasured := hsizes.get hentries (hsizes.length_eq ▸ hentries)
  rw [List.get_eq_getElem, hentry] at hmeasured
  exact ⟨_, _, List.getElem?_eq_getElem hfields, hmeasured⟩

theorem viewOf_body (h : m.measure = .ok (flags, n)) (header : Option Header) :
    ∃ d, m.schema.viewOf header flags m.body = .ok d ∧ d.header = header ∧ d.Carries m := by
  have hparses := parses_of_measure h
  obtain ⟨slots, hslots, hreadings⟩ := hparses.listOfBytes []
  rw [List.append_nil, ← body_eq] at hslots
  have hreading (i : Nat) : (⟨header, flags, slots⟩ : View).reading i = m.reading i := by
    rw [View.reading_getD, hreadings, reading_eq]
  have hbit (i : Nat) : flags.testBit i = (m.reading i).present := by
    rw [reading_eq, hparses.isPresent i, Nat.zero_add]
    by_cases hi : i < m.schema.fields.length
    · simp [hi]
    · have hlt : flags < 2 ^ i := Nat.lt_of_lt_of_le (flags_lt_of_measure h)
        (Nat.pow_le_pow_right Nat.two_pos (Nat.le_of_not_lt hi))
      simp [Nat.testBit_lt_two_pow hlt, hi]
  refine ⟨⟨header, flags, slots⟩, Except.bind_eq_ok.mpr ⟨_, hslots, rfl⟩, rfl, hreading, hbit, ?_⟩
  intro α _ a i hv
  obtain ⟨spec, size, hspec, hsize⟩ := sizeIn_of_measure h hv
  obtain ⟨-, hlen, -⟩ := FieldValue.sizeIn_inline.mp hsize
  rw [View.get_eq, hreading, reading, hspec, hv]
  simp only [FieldValue.scalar, FieldValue.reading, Bytes.padTo_of_length_eq hlen, Reading.ofFixed,
    Option.bind_some, Scalar.length_toBytes, if_true, Scalar.ofBytes_toBytes]

end Message

theorem take_topForm {h : Header} {w : FlagWidth} {flags n : Nat} {body rest : Bytes}
    (hn : n = headerLen + w.bytes + body.length + 1) :
    (topForm h w flags body ++ rest).take n = topForm h w flags body :=
  List.take_left' (hn ▸ length_topForm h w flags body)

theorem take_nestedForm {w : FlagWidth} {flags n : Nat} {body rest : Bytes}
    (hn : n = lengthWidth + w.bytes + body.length) :
    (nestedForm w flags body ++ rest).take n = nestedForm w flags body :=
  List.take_left' (hn ▸ length_nestedForm w flags body)

namespace Message

variable {m : Message} {n : Nat} {buf out : Bytes}

theorem decodeTop_of_encodeTop {h : Header} (he : m.encodeTop h buf = (.ok n, out)) (rest : Bytes) :
    ∃ d, m.schema.decodeTop (out.take n ++ rest) = .ok d ∧ d.header = some h ∧ d.Carries m := by
  obtain ⟨flags, hm, hn, hsize, -, rfl⟩ := encodeTop_eq_ok he
  obtain ⟨d, hd, hheader, hcarries⟩ := viewOf_body hm (some h)
  refine ⟨d, ?_, hheader, hcarries⟩
  rw [take_topForm hn, Schema.decodeTop, decodeTop?_topForm (word_lt_of_measure hm) (hn ▸ hsize), hd]
  rfl

theorem decodeNested_of_encodeNested (he : m.encodeNested buf = (.ok n, out)) (rest : Bytes) :
    ∃ d, m.schema.decodeNested (out.take n ++ rest) = .ok d ∧ d.header = none ∧ d.Carries m := by
  obtain ⟨flags, hm, hn, hsize, -, rfl⟩ := encodeNested_eq_ok he
  obtain ⟨d, hd, hheader, hcarries⟩ := viewOf_body hm none
  have hbody : m.schema.flagWidth.bytes + m.body.length ≤ maxPacketSize := by
    rw [Schema.nestedOverhead] at hn
    omega
  refine ⟨d, ?_, hheader, hcarries⟩
  rw [take_nestedForm hn, Schema.decodeNested, decodeNested?_nestedForm (word_lt_of_measure hm) hbody,
    hd]
  rfl

end Message

/-- Decoding what was encoded gives the header and, field by field, what was supplied. -/
theorem decode_encode (m : Message) (buf rest : Bytes) :
    (∀ (h : Header) (n : Nat) (out : Bytes), m.encodeTop h buf = (.ok n, out) →
      ∃ d, m.schema.decodeTop (out.take n ++ rest) = .ok d ∧ d.header = some h ∧ d.Carries m) ∧
    (∀ (n : Nat) (out : Bytes), m.encodeNested buf = (.ok n, out) →
      ∃ d, m.schema.decodeNested (out.take n ++ rest) = .ok d ∧ d.header = none ∧ d.Carries m) :=
  ⟨fun _ _ _ he ↦ Message.decodeTop_of_encodeTop he rest,
    fun _ _ he ↦ Message.decodeNested_of_encodeNested he rest⟩

def Message.sample : Message :=
  ((ofSchema .sample).set 0 (.scalar (258 : UInt16))).set 2 (.packets [[0, 0]])

theorem decode_encode_sample :
    (Message.sample.encodeTop .blank (List.replicate 22 0xEE) = (.ok 20,
      [0xD6, 20, 0, 0, 0, 0, 0, 0, 0, 0, 0, 0, 0, 5, 2, 1, 1, 0, 0, 0x6B, 0xEE, 0xEE]) ∧
    ∃ d, Message.sample.schema.decodeTop ([0xD6, 20, 0, 0, 0, 0, 0, 0, 0, 0, 0, 0, 0, 5, 2, 1, 1, 0, 0,
      0x6B] ++ [9, 9]) = .ok d ∧ d.header = some .blank ∧ d.Carries Message.sample) ∧
    (Message.sample.encodeNested (List.replicate 10 0xEE) = (.ok 8,
      [6, 0, 5, 2, 1, 1, 0, 0, 0xEE, 0xEE]) ∧
    ∃ d, Message.sample.schema.decodeNested ([6, 0, 5, 2, 1, 1, 0, 0] ++ [9, 9]) = .ok d ∧
      d.header = none ∧ d.Carries Message.sample) := by
  have htop : Message.sample.encodeTop .blank (List.replicate 22 0xEE) = (.ok 20,
      [0xD6, 20, 0, 0, 0, 0, 0, 0, 0, 0, 0, 0, 0, 5, 2, 1, 1, 0, 0, 0x6B, 0xEE, 0xEE]) := by
    decide
  have hnested : Message.sample.encodeNested (List.replicate 10 0xEE) = (.ok 8,
      [6, 0, 5, 2, 1, 1, 0, 0, 0xEE, 0xEE]) := by
    decide
  exact ⟨⟨htop, (decode_encode _ _ [9, 9]).1 _ _ _ htop⟩,
    hnested, (decode_encode _ _ [9, 9]).2 _ _ hnested⟩

end GameHost
