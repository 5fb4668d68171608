import GameHost.Proofs.Wire.Atomicity

namespace GameHost

theorem Schema.viewOf_header {s : Schema} {header : Option Header} {flags : Nat} {body : Bytes} {d : View}
    (h : s.viewOf header flags body = .ok d) (header' : Option Header) :
    s.viewOf header' flags body = .ok { d with header := header' } := by
  obtain ⟨found, hslots, hd⟩ := Except.bind_eq_ok.mp h
  obtain rfl := Except.pure_eq_ok.mp hd
  exact Except.bind_eq_ok.mpr ⟨found, hslots, rfl⟩

theorem take_drop_topForm (h : Header) (w : FlagWidth) (flags : Nat) (body : Bytes) :
    ((topForm h w flags body).take (headerLen + w.bytes + body.length)).drop headerLen =
      Bytes.toLE w.bytes flags ++ body := by
  have hlen : (h.toBytes (headerLen + w.bytes + body.length + 1) ++ (Bytes.toLE w.bytes flags ++ body)).length =
      headerLen + w.bytes + body.length := by
    rw [List.length_append, List.length_append, Header.length_toBytes, Bytes.length_toLE, Nat.add_assoc]
  have hsplit : topForm h w flags body =
      h.toBytes (headerLen + w.bytes + body.length + 1) ++ (Bytes.toLE w.bytes flags ++ body) ++ [rearGuard] := by
    simp only [topForm, List.append_assoc]
  rw [hsplit, List.take_left' hlen, List.drop_left' (Header.length_toBytes ..)]

theorem drop_nestedForm (w : FlagWidth) (flags : Nat) (body : Bytes) :
    (nestedForm w flags body).drop lengthWidth = Bytes.toLE w.bytes flags ++ body :=
  List.drop_left' (Bytes.length_toLE ..)

namespace Message

variable {m : Message}

/-- A value was supplied for an index outside the schema, or one that its field cannot hold. -/
def Invalid (m : Message) : Prop :=
  m.badIndex ≠ none ∨ ∃ spec v fault, (spec, some v) ∈ m.entries ∧ v.sizeIn spec = .error fault

/-- What is first found wrong with a message, whatever form it is to take: the first index outside the
schema, or else the first field whose value it cannot hold. -/
inductive Defect (m : Message) : Error → Prop
  | index {i : Nat} (bad : m.badIndex = some i) : m.Defect (.fieldOutOfRange i)
  | field {i : Nat} {fault : EncodeFault} (good : m.badIndex = none) (first : m.FirstFault i fault) :
      m.Defect (.encode i fault)

theorem measure_eq_error_iff {e : Error} : m.measure = .error e ↔ m.Defect e := by
  rw [measure_eq_error]
  constructor
  · rintro (⟨i, hbad, rfl⟩ | ⟨hgood, i, fault, hfirst, rfl⟩)
    · exact .index hbad
    · exact .field hgood hfirst
  · intro h
    cases h with
    | index bad => exact .inl ⟨_, bad, rfl⟩
    | field good first => exact .inr ⟨good, _, _, first, rfl⟩

theorem Defect.invalid {e : Error} (h : m.Defect e) : m.Invalid := by
  cases h with
  | index bad =>
    left
    rw [bad]
    exact Option.some_ne_none _
  | field _ first =>
    obtain ⟨before, spec, v, after, hentries, -, -, hfault⟩ := first
    refine .inr ⟨spec, v, _, ?_, hfault⟩
    rw [hentries]
    exact List.mem_append_right before List.mem_cons_self

theorem Invalid.exists_defect (h : m.Invalid) : ∃ e, m.Defect e := by
  cases hm : m.measure with
  | error e => exact ⟨e, measure_eq_error_iff.mp hm⟩
  | ok measured =>
    -- a message that can be measured has nothing wrong with it
    obtain ⟨hgood, sizes, hsizes, -⟩ := exists_measure_eq_ok.mp ⟨measured.1, hm⟩
    rcases h with hbad | ⟨spec, v, fault, hmem, hfault⟩
    · exact absurd hgood hbad
    · obtain ⟨size, hsize⟩ := measured_of_mem hsizes _ hmem
      have hok : v.sizeIn spec = .ok size := hsize
      rw [hok] at hfault
      cases hfault

/-- All that is asked of the message fails with this error, whatever room there is, and writes nothing. -/
structure FailsWith (m : Message) (h : Header) (e : Error) : Prop where
  encodedLen : m.encodedLen = .error e
  nestedLen : m.nestedLen = .error e
  encodeTop (buf : Bytes) : m.encodeTop h buf = (.error e, buf)
  encodeNested (buf : Bytes) : m.encodeNested buf = (.error e, buf)
  nestedBytes : m.nestedBytes = .error e

theorem failsWith_of_measure {e : Error} (hm : m.measure = .error e) (h : Header) : m.FailsWith h e where
  encodedLen := (size_eq_error m.encodedLen_eq).mpr hm
  nestedLen := (size_eq_error m.nestedLen_eq).mpr hm
  encodeTop buf := by rw [encodeTop, hm]
  encodeNested buf := by rw [encodeNested, hm]
  nestedBytes := Except.bind_eq_error.mpr (.inl ((size_eq_error m.nestedLen_eq).mpr hm))

/-- `top` and `nested` begin with the two forms of the message, of `n` and of `k` bytes: without what is put around
flag word and fields they are the same bytes, and they are read alike. -/
structure Corresponds (m : Message) (h : Header) (n k : Nat) (top nested : Bytes) : Prop where
  body : (top.take (n - 1)).drop headerLen = (nested.take k).drop lengthWidth
  view (rest rest' : Bytes) : ∃ d, m.schema.decodeTop (top.take n ++ rest) = .ok d ∧ d.header = some h ∧
    m.schema.decodeNested (nested.take k ++ rest') = .ok { d with header := none }

theorem corresponds_of_encodeTop {h : Header} {buf out : Bytes} {n : Nat} (he : m.encodeTop h buf = (.ok n, out)) :
    ∃ k, n = k + 12 ∧ ∀ buf' : Bytes, k ≤ buf'.length → ∃ out', m.encodeNested buf' = (.ok k, out') ∧
      m.Corresponds h n k out out' := by
  obtain ⟨flags, hm, hn, hsize, -, rfl⟩ := encodeTop_eq_ok he
  obtain ⟨d, hd, hheader, -⟩ := viewOf_body hm (some h)
  have hover : m.schema.topOverhead = headerLen + m.schema.flagWidth.bytes := rfl
  have hover' : m.schema.nestedOverhead = lengthWidth + m.schema.flagWidth.bytes := rfl
  have hheaderLen : headerLen = 13 := rfl
  have hlengthWidth : lengthWidth = 2 := rfl
  have hword := word_lt_of_measure hm
  have hbody : m.schema.flagWidth.bytes + m.body.length ≤ maxPacketSize := by omega
  refine ⟨m.schema.nestedOverhead + m.body.length, by omega, ?_⟩
  intro buf' hroom
  refine ⟨_, encodeNested_of_measure buf' hm hbody hroom, ?_, ?_⟩
  · have htop : n - 1 = headerLen + m.schema.flagWidth.bytes + m.body.length := by omega
    have hlen := length_topForm h m.schema.flagWidth flags m.body
    rw [htop, List.take_append_of_le_length (by omega), take_drop_topForm,
      take_nestedForm (by rw [hover']), drop_nestedForm]
  · intro rest rest'
    refine ⟨d, ?_, hheader, ?_⟩
    · rw [take_topForm hn, Schema.decodeTop, decodeTop?_topForm hword (hn ▸ hsize), hd]
      rfl
    · rw [take_nestedForm (by rw [hover']), Schema.decodeNested, decodeNested?_nestedForm hword hbody,
        Schema.viewOf_header hd none]
      rfl

/-- Where the top-level form of a message can be written, so can the nested form, with twelve bytes less around the
same flag word and fields. An invalid message fails with what is first wrong with it, whatever is asked of it. -/
theorem forms_correspond (m : Message) (h : Header) :
    (∀ (buf : Bytes) (n : Nat) (out : Bytes), m.encodeTop h buf = (.ok n, out) →
      ∃ k, n = k + 12 ∧ ∀ buf' : Bytes, k ≤ buf'.length → ∃ out', m.encodeNested buf' = (.ok k, out') ∧
        m.Corresponds h n k out out') ∧
    (m.Invalid ↔ ∃ e, m.Defect e ∧ m.FailsWith h e) := by
  refine ⟨fun _ _ _ ↦ corresponds_of_encodeTop, ?_, ?_⟩
  · intro hinvalid
    obtain ⟨e, he⟩ := hinvalid.exists_defect
    exact ⟨e, he, failsWith_of_measure (measure_eq_error_iff.mpr he) h⟩
  · rintro ⟨e, he, -⟩
    exact he.invalid

theorem forms_correspond_sample :
    sample.encodeTop .blank (List.replicate 20 0xEE) = (.ok 20,
      [0xD6, 20, 0, 0, 0, 0, 0, 0, 0, 0, 0, 0, 0, 5, 2, 1, 1, 0, 0, 0x6B]) ∧
    sample.encodeNested (List.replicate 9 0xEE) = (.ok 8, [6, 0, 5, 2, 1, 1, 0, 0, 0xEE]) ∧
    sample.Corresponds .blank 20 8 [0xD6, 20, 0, 0, 0, 0, 0, 0, 0, 0, 0, 0, 0, 5, 2, 1, 1, 0, 0, 0x6B]
      [6, 0, 5, 2, 1, 1, 0, 0, 0xEE] := by
  have htop : sample.encodeTop .blank (List.replicate 20 0xEE) = (.ok 20,
      [0xD6, 20, 0, 0, 0, 0, 0, 0, 0, 0, 0, 0, 0, 5, 2, 1, 1, 0, 0, 0x6B]) := by
    decide
  have hnested : sample.encodeNested (List.replicate 9 0xEE) = (.ok 8, [6, 0, 5, 2, 1, 1, 0, 0, 0xEE]) := by
    decide
  obtain ⟨k, hk, hforms⟩ := (forms_correspond sample .blank).1 _ _ _ htop
  obtain rfl : k = 8 := by omega
  obtain ⟨out, hout, hsame⟩ := hforms (List.replicate 9 0xEE) (by decide)
  rw [hnested] at hout
  obtain ⟨-, rfl⟩ := Prod.mk.inj hout
  exact ⟨htop, hnested, hsame⟩

end Message
end GameHost
