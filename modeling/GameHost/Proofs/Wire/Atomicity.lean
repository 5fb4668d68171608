import GameHost.Proofs.Wire.Copying
import GameHost.Proofs.Wire.RoundTrip

namespace GameHost.Message

variable {m : Message} {entries : List (FieldSpec × Option FieldValue)} {sizes : List (Option Nat)}

theorem sizesFrom_eq_error {i : Nat} {e : Error} : sizesFrom i entries = .error e ↔
    ∃ before spec v after fault, entries = before ++ (spec, some v) :: after ∧
      (∃ sizes, List.Forall₂ Measured before sizes) ∧ v.sizeIn spec = .error fault ∧
      e = .encode (i + before.length) fault := by
  constructor
  · intro h
    induction entries generalizing i with
    | nil => cases h
    | cons entry entries ih =>
      have step (size : Option Nat) (hentry : Measured entry size)
          (h : sizesFrom (i + 1) entries = .error e) :
          ∃ before spec v after fault, entry :: entries = before ++ (spec, some v) :: after ∧
            (∃ sizes, List.Forall₂ Measured before sizes) ∧ v.sizeIn spec = .error fault ∧
            e = .encode (i + before.length) fault := by
        obtain ⟨before, spec, v, after, fault, rfl, ⟨sizes, hsizes⟩, hfault, rfl⟩ := ih h
        refine ⟨entry :: before, spec, v, after, fault, rfl, ⟨_, .cons hentry hsizes⟩, hfault, ?_⟩
        rw [List.length_cons, Nat.add_assoc, Nat.add_comm 1]
      obtain ⟨spec, _ | v⟩ := entry
      · rw [sizesFrom] at h
        rcases Except.bind_eq_error.mp h with h | ⟨_, -, h⟩
        · exact step none rfl h
        · exact absurd h Except.pure_ne_error
      · rw [sizesFrom] at h
        split at h
        · next fault hfault =>
          cases h
          exact ⟨[], spec, v, entries, fault, rfl, ⟨[], .nil⟩, hfault, rfl⟩
        · next size hsize =>
          rcases Except.bind_eq_error.mp h with h | ⟨_, -, h⟩
          · exact step size hsize h
          · exact absurd h Except.pure_ne_error
  · rintro ⟨before, spec, v, after, fault, rfl, ⟨sizes, hsizes⟩, hfault, rfl⟩
    induction hsizes generalizing i with
    | nil =>
      rw [List.nil_append, sizesFrom, hfault]
      rfl
    | @cons entry size before sizes hentry _ ih =>
      have hmore := ih (i := i + 1)
      rw [Nat.add_assoc, Nat.add_comm 1, ← List.length_cons (a := entry)] at hmore
      obtain ⟨spec', _ | v'⟩ := entry
      · rw [List.cons_append, sizesFrom]
        exact Except.bind_eq_error.mpr (.inl hmore)
      · have hsize : v'.sizeIn spec' = .ok size := hentry
        rw [List.cons_append, sizesFrom, hsize]
        exact Except.bind_eq_error.mpr (.inl hmore)

/-- The fields before number `i` can be encoded, and this is what keeps number `i` from it. -/
def FirstFault (m : Message) (i : Nat) (fault : EncodeFault) : Prop :=
  ∃ before spec v after, m.entries = before ++ (spec, some v) :: after ∧ before.length = i ∧
    (∃ sizes, List.Forall₂ Measured before sizes) ∧ v.sizeIn spec = .error fault

/-- What keeps a message of some measured size from being encoded where there is room for `room` bytes. -/
inductive Refusal (m : Message) (size : Except Error Nat) (limit room : Nat) : Error → Prop
  | index {i : Nat} (bad : m.badIndex = some i) : Refusal m size limit room (.fieldOutOfRange i)
  | field {i : Nat} {fault : EncodeFault} (good : m.badIndex = none) (first : m.FirstFault i fault) :
      Refusal m size limit room (.encode i fault)
  | oversized {n : Nat} (measured : size = .ok n) (large : limit < n) :
      Refusal m size limit room (.oversized n)
  | bufferTooSmall {n : Nat} (measured : size = .ok n) (fits : n ≤ limit) (small : room < n) :
      Refusal m size limit room (.bufferTooSmall n room)

theorem measure_eq_error {e : Error} : m.measure = .error e ↔
    (∃ i, m.badIndex = some i ∧ e = .fieldOutOfRange i) ∨
      m.badIndex = none ∧ ∃ i fault, m.FirstFault i fault ∧ e = .encode i fault := by
  unfold measure
  cases hbad : m.badIndex with
  | some i => simp [eq_comm]
  | none =>
    simp only [reduceCtorEq, false_and, exists_false, false_or, true_and]
    constructor
    · intro h
      rcases Except.bind_eq_error.mp h with h | ⟨_, -, h⟩
      · obtain ⟨before, spec, v, after, fault, hentries, hbefore, hfault, rfl⟩ := sizesFrom_eq_error.mp h
        rw [Nat.zero_add]
        exact ⟨_, fault, ⟨before, spec, v, after, hentries, rfl, hbefore, hfault⟩, rfl⟩
      · exact absurd h Except.pure_ne_error
    · rintro ⟨i, fault, ⟨before, spec, v, after, hentries, rfl, hbefore, hfault⟩, rfl⟩
      refine Except.bind_eq_error.mpr (.inl (sizesFrom_eq_error.mpr ?_))
      exact ⟨before, spec, v, after, fault, hentries, hbefore, hfault, by rw [Nat.zero_add]⟩

theorem exists_measure_eq_ok {n : Nat} : (∃ flags, m.measure = .ok (flags, n)) ↔
    m.badIndex = none ∧ ∃ sizes, List.Forall₂ Measured m.entries sizes ∧ n = bodySize sizes := by
  constructor
  · rintro ⟨flags, h⟩
    obtain ⟨sizes, hsizes, -, hn⟩ := measure_eq_ok h
    refine ⟨?_, sizes, hsizes, hn⟩
    cases hbad : m.badIndex with
    | none => rfl
    | some i =>
      rw [measure_eq_error.mpr (.inl ⟨i, hbad, rfl⟩)] at h
      cases h
  · rintro ⟨hbad, sizes, hsizes, rfl⟩
    have hbody : m.body.length = bodySize sizes := length_units hsizes
    rw [← hbody]
    exact ⟨_, measure_of_measured hbad hsizes⟩

/-- What an encoder answers, once the whole size is measured. -/
def verdict (size : Except Error Nat) (limit room : Nat) : Except Error Nat := do
  let n ← size
  if limit < n then .error (.oversized n)
  else if room < n then .error (.bufferTooSmall n room)
  else .ok n

section sizes

variable {size : Except Error Nat} {front back limit room : Nat}

theorem verdict_eq_ok {n : Nat} :
    verdict size limit room = .ok n ↔ size = .ok n ∧ n ≤ limit ∧ n ≤ room := by
  constructor
  · intro h
    obtain ⟨n', hn, h⟩ := Except.bind_eq_ok.mp h
    split at h
    · cases h
    · split at h
      · cases h
      · cases h
        exact ⟨hn, by omega, by omega⟩
  · rintro ⟨hn, hlimit, hroom⟩
    refine Except.bind_eq_ok.mpr ⟨n, hn, ?_⟩
    rw [if_neg (by omega), if_neg (by omega)]

theorem size_eq_ok (h : size = m.measure.map (front + ·.2 + back)) {n : Nat} :
    size = .ok n ↔ ∃ flags bodyLen, m.measure = .ok (flags, bodyLen) ∧ n = front + bodyLen + back := by
  rw [h, Except.map_eq_ok]
  constructor
  · rintro ⟨⟨flags, bodyLen⟩, hm, rfl⟩
    exact ⟨flags, bodyLen, hm, rfl⟩
  · rintro ⟨flags, bodyLen, hm, rfl⟩
    exact ⟨(flags, bodyLen), hm, rfl⟩

theorem size_eq_error (h : size = m.measure.map (front + ·.2 + back)) {e : Error} :
    size = .error e ↔ m.measure = .error e := by rw [h, Except.map_eq_error]

theorem sized (h : size = m.measure.map (front + ·.2 + back)) (n : Nat) : size = .ok n ↔
    m.badIndex = none ∧
      ∃ sizes, List.Forall₂ Measured m.entries sizes ∧ n = front + bodySize sizes + back := by
  rw [size_eq_ok h]
  constructor
  · rintro ⟨flags, bodyLen, hm, rfl⟩
    obtain ⟨hgood, sizes, hsizes, rfl⟩ := exists_measure_eq_ok.mp ⟨flags, hm⟩
    exact ⟨hgood, sizes, hsizes, rfl⟩
  · rintro ⟨hgood, sizes, hsizes, rfl⟩
    obtain ⟨flags, hm⟩ := exists_measure_eq_ok.mpr ⟨hgood, sizes, hsizes, rfl⟩
    exact ⟨flags, _, hm, rfl⟩

theorem verdict_eq_error (h : size = m.measure.map (front + ·.2 + back)) {e : Error} :
    verdict size limit room = .error e ↔ m.Refusal size limit room e := by
  constructor
  · intro he
    rcases Except.bind_eq_error.mp he with he | ⟨n, hn, he⟩
    · rcases measure_eq_error.mp ((size_eq_error h).mp he) with ⟨i, hbad, rfl⟩ | ⟨hgood, i, fault, hfirst, rfl⟩
      · exact .index hbad
      · exact .field hgood hfirst
    · split at he
      · cases he
        exact .oversized hn (by assumption)
      · split at he
        · cases he
          exact .bufferTooSmall hn (by omega) (by assumption)
        · cases he
  · intro he
    cases he with
    | index bad =>
      have hm := measure_eq_error.mpr (.inl ⟨_, bad, rfl⟩)
      exact Except.bind_eq_error.mpr (.inl ((size_eq_error h).mpr hm))
    | field good first =>
      have hm := measure_eq_error.mpr (.inr ⟨good, _, _, first, rfl⟩)
      exact Except.bind_eq_error.mpr (.inl ((size_eq_error h).mpr hm))
    | oversized measured large =>
      exact Except.bind_eq_error.mpr (.inr ⟨_, measured, if_pos large⟩)
    | bufferTooSmall measured fits small =>
      refine Except.bind_eq_error.mpr (.inr ⟨_, measured, ?_⟩)
      rw [if_neg (by omega), if_pos small]

end sizes

theorem encodedLen_eq (m : Message) : m.encodedLen = m.measure.map (m.schema.topOverhead + ·.2 + 1) := by
  unfold encodedLen
  cases m.measure <;> rfl

theorem nestedLen_eq (m : Message) : m.nestedLen = m.measure.map (m.schema.nestedOverhead + ·.2 + 0) := by
  unfold nestedLen
  cases m.measure <;> rfl

theorem encodeTop_verdict (m : Message) (h : Header) (buf : Bytes) :
    (m.encodeTop h buf).1 = verdict m.encodedLen maxPacketSize buf.length ∧
      ∀ e, (m.encodeTop h buf).1 = .error e → (m.encodeTop h buf).2 = buf := by
  unfold encodeTop verdict encodedLen
  cases m.measure with
  | error e => exact ⟨rfl, fun _ _ ↦ rfl⟩
  | ok measured =>
    obtain ⟨flags, bodyLen⟩ := measured
    simp only [bind, Except.bind, pure, Except.pure]
    split
    · exact ⟨rfl, fun _ _ ↦ rfl⟩
    · split
      · exact ⟨rfl, fun _ _ ↦ rfl⟩
      · exact ⟨rfl, fun _ he ↦ nomatch he⟩

theorem encodeNested_verdict (m : Message) (buf : Bytes) :
    (m.encodeNested buf).1 = verdict m.nestedLen (lengthWidth + maxPacketSize) buf.length ∧
      ∀ e, (m.encodeNested buf).1 = .error e → (m.encodeNested buf).2 = buf := by
  unfold encodeNested verdict nestedLen
  cases m.measure with
  | error e => exact ⟨rfl, fun _ _ ↦ rfl⟩
  | ok measured =>
    obtain ⟨flags, bodyLen⟩ := measured
    have hlimit : maxPacketSize < m.schema.nestedOverhead + bodyLen - lengthWidth ↔
        lengthWidth + maxPacketSize < m.schema.nestedOverhead + bodyLen := by omega
    simp only [bind, Except.bind, pure, Except.pure, hlimit]
    split
    · exact ⟨rfl, fun _ _ ↦ rfl⟩
    · split
      · exact ⟨rfl, fun _ _ ↦ rfl⟩
      · exact ⟨rfl, fun _ he ↦ nomatch he⟩

/-- A form with `front` bytes before the body and `back` bytes behind it, whose whole size may come up
to `limit`: `encode` writes it into a buffer, and `checked` does so with every access checked. -/
structure Atomic (m : Message) (front back limit : Nat) (size : Except Error Nat)
    (encode : Bytes → Except Error Nat × Bytes) (checked : Bytes → Option (Except Error Nat × Bytes)) :
    Prop where
  sized (n : Nat) : size = .ok n ↔ m.badIndex = none ∧
    ∃ sizes, List.Forall₂ Measured m.entries sizes ∧ n = front + bodySize sizes + back
  succeeds (buf : Bytes) (n : Nat) : (encode buf).1 = .ok n ↔ size = .ok n ∧ n ≤ limit ∧ n ≤ buf.length
  fails (buf : Bytes) (e : Error) : (encode buf).1 = .error e ↔ m.Refusal size limit buf.length e
  kept (buf : Bytes) (e : Error) : (encode buf).1 = .error e → (encode buf).2 = buf
  written (n : Nat) : size = .ok n → n ≤ limit →
    ∃ bs : Bytes, bs.length = n ∧ ∀ buf : Bytes, n ≤ buf.length → (encode buf).2 = bs ++ buf.drop n
  bounded (buf : Bytes) : checked buf = some (encode buf)

theorem atomic_encodeTop (m : Message) (h : Header) :
    m.Atomic m.schema.topOverhead 1 maxPacketSize m.encodedLen (m.encodeTop h) (m.encodeTop? h) where
  sized := sized m.encodedLen_eq
  succeeds buf n := by rw [(m.encodeTop_verdict h buf).1, verdict_eq_ok]
  fails buf e := by rw [(m.encodeTop_verdict h buf).1, verdict_eq_error m.encodedLen_eq]
  kept buf := (m.encodeTop_verdict h buf).2
  written n hn hlimit := by
    obtain ⟨flags, bodyLen, hm, rfl⟩ := (size_eq_ok m.encodedLen_eq).mp hn
    have hbody := length_body_of_measure hm
    rw [← hbody] at hm hlimit ⊢
    refine ⟨topForm h m.schema.flagWidth flags m.body, length_topForm .., ?_⟩
    intro buf hroom
    rw [encodeTop_of_measure h buf hm hlimit hroom]
  bounded := m.encodeTop?_eq h

theorem atomic_encodeNested (m : Message) : m.Atomic m.schema.nestedOverhead 0
    (lengthWidth + maxPacketSize) m.nestedLen m.encodeNested m.encodeNested? where
  sized := sized m.nestedLen_eq
  succeeds buf n := by rw [(m.encodeNested_verdict buf).1, verdict_eq_ok]
  fails buf e := by rw [(m.encodeNested_verdict buf).1, verdict_eq_error m.nestedLen_eq]
  kept buf := (m.encodeNested_verdict buf).2
  written n hn hlimit := by
    obtain ⟨flags, bodyLen, hm, rfl⟩ := (size_eq_ok m.nestedLen_eq).mp hn
    have hbody := length_body_of_measure hm
    have hover : m.schema.nestedOverhead = lengthWidth + m.schema.flagWidth.bytes := rfl
    rw [← hbody] at hm hlimit ⊢
    refine ⟨nestedForm m.schema.flagWidth flags m.body, length_nestedForm .., ?_⟩
    intro buf hroom
    rw [encodeNested_of_measure buf hm (by omega) hroom]
    rfl
  bounded := m.encodeNested?_eq

theorem nestedBytes_eq_ok {bs : Bytes} : m.nestedBytes = .ok bs ↔ ∀ buf : Bytes,
    bs.length ≤ buf.length → m.encodeNested buf = (.ok bs.length, bs ++ buf.drop bs.length) := by
  have ha := m.atomic_encodeNested
  constructor
  · intro h
    obtain ⟨size, hsize, -⟩ := Except.bind_eq_ok.mp h
    rw [nestedBytes_of_nestedLen hsize] at h
    obtain ⟨n, hn, hbs⟩ := Except.map_eq_ok.mp h
    obtain ⟨hlen, hlimit, hroom⟩ := (ha.succeeds _ _).mp hn
    obtain ⟨out, rfl, hout⟩ := ha.written n hlen hlimit
    rw [hout _ hroom, List.take_left' rfl] at hbs
    subst hbs
    intro buf hbuf
    exact Prod.ext ((ha.succeeds buf _).mpr ⟨hlen, hlimit, hbuf⟩) (hout buf hbuf)
  · intro h
    have hwhole := h (List.replicate bs.length 0) (Nat.le_of_eq List.length_replicate.symm)
    have hlen := ((ha.succeeds _ _).mp (congrArg Prod.fst hwhole)).1
    rw [nestedBytes_of_nestedLen hlen, hwhole]
    exact congrArg Except.ok (List.take_left' rfl)

/-- Only what no buffer could mend keeps a message from being encoded into one of its own. -/
theorem nestedBytes_eq_error {e : Error} : m.nestedBytes = .error e ↔
    ∀ room, m.Refusal m.nestedLen (lengthWidth + maxPacketSize) room e := by
  simp only [← verdict_eq_error m.nestedLen_eq]
  cases hlen : m.nestedLen with
  | error e' =>
    have hbytes : m.nestedBytes = .error e' := Except.bind_eq_error.mpr (.inl hlen)
    have hverdict (room : Nat) : verdict (.error e') (lengthWidth + maxPacketSize) room = .error e' := rfl
    simp only [hbytes, hverdict, Except.error.injEq, forall_const]
  | ok size =>
    have hroom : (List.replicate size (0 : UInt8)).length = size := List.length_replicate
    rw [nestedBytes_of_nestedLen hlen, Except.map_eq_error, (m.encodeNested_verdict _).1, hlen, hroom]
    constructor
    · intro h room
      rcases Except.bind_eq_error.mp h with h | ⟨n, hn, h⟩
      · cases h
      · cases hn
        rw [if_neg (Nat.lt_irrefl size)] at h
        split at h
        · next hlarge => exact Except.bind_eq_error.mpr (.inr ⟨size, rfl, by rw [if_pos hlarge, h]⟩)
        · cases h
    · exact fun h ↦ h size

/-- Both forms of a message are written whole or not at all. The copying pass writes what was measured,
and the nested form in a buffer of its own is the one that every buffer with room for it gets. -/
theorem encode_atomic (m : Message) (h : Header) :
    m.Atomic (headerLen + m.schema.flagWidth.bytes) 1 maxPacketSize m.encodedLen (m.encodeTop h)
      (m.encodeTop? h) ∧
    m.Atomic (lengthWidth + m.schema.flagWidth.bytes) 0 (lengthWidth + maxPacketSize) m.nestedLen
      m.encodeNested m.encodeNested? ∧
    (∀ flags n, m.measure = .ok (flags, n) → m.body.length = n ∧ Pen.Writes m.writeFields m.body) ∧
    m.nestedBytes? = some m.nestedBytes ∧
    (∀ bs : Bytes, m.nestedBytes = .ok bs ↔ ∀ buf : Bytes, bs.length ≤ buf.length →
      m.encodeNested buf = (.ok bs.length, bs ++ buf.drop bs.length)) ∧
    (∀ e, m.nestedBytes = .error e ↔
      ∀ room, m.Refusal m.nestedLen (lengthWidth + maxPacketSize) room e) ∧
    ∀ n room, m.nestedBytes ≠ .error (.bufferTooSmall n room) := by
  refine ⟨m.atomic_encodeTop h, m.atomic_encodeNested, ?_, m.nestedBytes?_eq, ?_, ?_, ?_⟩
  · intro flags n hm
    exact ⟨length_body_of_measure hm, writeFields_writes hm⟩
  · intro bs
    exact nestedBytes_eq_ok
  · intro e
    exact nestedBytes_eq_error
  · intro n room he
    have hrefusal := nestedBytes_eq_error.mp he (room + 1)
    cases hrefusal

theorem encode_atomic_sample :
    (sample.encodeTop .blank (List.replicate 22 0xEE)).1 = .ok 20 ∧
    (sample.encodeTop .blank (List.replicate 19 0xEE)).1 = .error (.bufferTooSmall 20 19) ∧
    (sample.encodeTop .blank (List.replicate 19 0xEE)).2 = List.replicate 19 0xEE ∧
    sample.nestedBytes = .ok [6, 0, 5, 2, 1, 1, 0, 0] := by
  have hlen : sample.encodedLen = .ok 20 := by decide
  have hroom : ∀ n, (List.replicate n (0xEE : UInt8)).length = n := fun n ↦ List.length_replicate
  have htop := (encode_atomic sample .blank).1
  have hfit := (htop.succeeds (List.replicate 22 0xEE) 20).mpr ⟨hlen, by decide, by decide⟩
  have hsmall : (sample.encodeTop .blank (List.replicate 19 0xEE)).1 = .error (.bufferTooSmall 20 19) :=
    (htop.fails _ _).mpr (.bufferTooSmall hlen (by decide) (by decide))
  exact ⟨hfit, hsmall, htop.kept _ _ hsmall, by decide⟩

end GameHost.Message
