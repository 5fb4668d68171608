import GameHost.Proofs.Wire.Encoded

/-!
Writers that check every index and every slice.

A `Pen` fills a buffer from the front. The copying pass goes over the values of a message with a pen and
knows nothing of their measured sizes; `Message.writeFields_writes` says that it writes the body that was
measured, to its last byte. `Message.encodeTop?_eq`, `Message.encodeNested?_eq` and
`Message.nestedBytes?_eq` say that the encoders have the outcome of `Message.encodeTop`,
`Message.encodeNested` and `Message.nestedBytes`, with every access in bounds.
-/

namespace GameHost

/-- Writes into `page` from `pos` on. -/
structure Pen where
  page : Bytes
  pos : Nat

namespace Pen

def put? (src : Bytes) (p : Pen) : Option Pen := do
  let page ← p.page.copy? p.pos (p.pos + src.length) src 0 src.length
  return ⟨page, p.pos + src.length⟩

def zeroTo? (stop : Nat) (p : Pen) : Option Pen := do
  let target ← p.page.slice? p.pos stop
  return ⟨p.page.overwrite p.pos (List.replicate target.length 0), stop⟩

/-- Copies a value as its own kind tells, whatever the type of the field. -/
def putValue? (spec : FieldSpec) : FieldValue → Pen → Option Pen
  | .inline bs, p => p.put? bs
  | .raw bs, p => p.put? bs >>= zeroTo? (p.pos + spec.fixedLen)
  | .block bs, p => p.put? (Bytes.toLE 2 bs.length) >>= put? bs
  | .packet bs, p => if spec.isPacketArray then p.put? [1] >>= put? bs else p.put? bs
  | .packets [], p => some p
  | .packets elements, p => p.put? [UInt8.ofNat elements.length] >>= elements.foldlM (flip put?)

def putField? (entry : FieldSpec × Option FieldValue) (p : Pen) : Option Pen :=
  match entry.2 with
  | none => some p
  | some v => p.putValue? entry.1 v

def behind (front rest : Bytes) : Pen := ⟨front ++ rest, front.length⟩

/-- Wherever there is room, the pen writes these bytes and stops behind them. -/
def Writes (write : Pen → Option Pen) (src : Bytes) : Prop :=
  ∀ front rest : Bytes, src.length ≤ rest.length →
    write (behind front rest) = some (behind (front ++ src) (rest.drop src.length))

variable {f g : Pen → Option Pen} {a b : Bytes} {spec : FieldSpec}

theorem writes_nothing : Writes some [] := by
  intro front rest _
  rw [List.append_nil]
  rfl

theorem writes_put (src : Bytes) : Writes (put? src) src := by
  intro front rest h
  have hroom : front.length + src.length ≤ (front ++ rest).length := by
    rw [List.length_append]
    omega
  have hcopy : (front ++ rest).copy? front.length (front.length + src.length) src 0 src.length =
      some ((front ++ rest).overwrite front.length src) := by
    rw [Bytes.copy?_eq (by rw [Nat.sub_zero]) hroom (Nat.zero_le _) (Nat.le_refl _), List.drop_zero, List.take_length]
  rw [put?, behind, hcopy, Bytes.overwrite_append rfl, behind, List.length_append]
  rfl

theorem Writes.then (hf : Writes f a) (hg : Writes g b) : Writes (fun p ↦ f p >>= g) (a ++ b) := by
  intro front rest h
  rw [List.length_append] at h
  have hrest : b.length ≤ (rest.drop a.length).length := by
    rw [List.length_drop]
    omega
  change f (behind front rest) >>= g = _
  rw [hf front rest (by omega), Option.bind_eq_bind, Option.bind_some, hg _ _ hrest, List.append_assoc,
    List.drop_drop, List.length_append]

theorem writes_foldlM {α : Type} {write : α → Pen → Option Pen} {bytes : α → Bytes} {items : List α}
    (h : ∀ x ∈ items, Writes (write x) (bytes x)) :
    Writes (items.foldlM (flip write)) (items.map bytes).flatten := by
  induction items with
  | nil => exact writes_nothing
  | cons x xs ih =>
    have hx := h x List.mem_cons_self
    have hxs := ih fun y hy ↦ h y (List.mem_cons_of_mem x hy)
    exact hx.then hxs

theorem writes_raw {bs : Bytes} {n : Nat} (h : bs.length ≤ n) :
    Writes (fun p ↦ p.put? bs >>= zeroTo? (p.pos + n)) (bs.padTo n) := by
  intro front rest hroom
  have hpad : (bs.padTo n).length = n := Bytes.length_padTo h
  rw [hpad] at hroom
  have hstop : front.length + n = (front ++ bs).length + (n - bs.length) := by
    rw [List.length_append]
    omega
  have hslice : (front ++ bs ++ rest.drop bs.length).slice? (front ++ bs).length (front.length + n) =
      some ((rest.drop bs.length).take (n - bs.length)) := by
    rw [hstop, Bytes.slice?_eq (by simp only [List.length_append, List.length_drop]; omega),
      List.drop_left' rfl]
  have hzeros : ((rest.drop bs.length).take (n - bs.length)).length = n - bs.length := by
    rw [List.length_take, List.length_drop]
    omega
  have hend : (front ++ bs.padTo n).length = front.length + n := by rw [List.length_append, hpad]
  change (behind front rest).put? bs >>= zeroTo? (front.length + n) = _
  rw [writes_put bs front rest (by omega), Option.bind_eq_bind, Option.bind_some, zeroTo?, behind, hslice]
  simp only [Option.bind_eq_bind, Option.bind_some, hzeros, Bytes.overwrite_append rfl,
    List.length_replicate, List.drop_drop, hpad, behind, hend]
  rw [List.append_assoc front bs, ← Bytes.padTo, Nat.add_sub_cancel' h]
  rfl

theorem writes_putValue {v : FieldValue} {size : Option Nat} (h : v.sizeIn spec = .ok size) :
    Writes (putValue? spec v) (v.bytesIn spec) := by
  cases v with
  | inline bs => exact writes_put bs
  | raw bs =>
    obtain ⟨-, hlen, -⟩ := FieldValue.sizeIn_raw.mp h
    exact writes_raw hlen
  | block bs => exact (writes_put _).then (writes_put bs)
  | packet bs =>
    unfold putValue? FieldValue.bytesIn
    split
    · exact (writes_put [1]).then (writes_put bs)
    · exact writes_put bs
  | packets elements =>
    cases elements with
    | nil => exact writes_nothing
    | cons e es =>
      have hall : Writes ((e :: es).foldlM (flip put?)) ((e :: es).map id).flatten :=
        writes_foldlM fun x _ ↦ writes_put x
      rw [List.map_id] at hall
      exact (writes_put [_]).then hall

theorem writes_putField {entry : FieldSpec × Option FieldValue} {size : Option Nat}
    (h : Message.Measured entry size) : Writes (putField? entry) (Message.unitOf entry) := by
  obtain ⟨spec, _ | v⟩ := entry
  · exact writes_nothing
  · exact writes_putValue h

end Pen

/-- Lets a pen write over the bytes from `i` up to `j`; also tells how far it came. -/
def Bytes.edit? (buf : Bytes) (i j : Nat) (write : Pen → Option Pen) : Option (Bytes × Nat) := do
  let part ← buf.slice? i j
  let p ← write ⟨part, 0⟩
  return (buf.overwrite i p.page, p.pos)

def Bytes.fill? (buf : Bytes) (i j : Nat) (write : Pen → Option Pen) : Option Bytes :=
  (buf.edit? i j write).map Prod.fst

theorem Pen.Writes.edit?_eq {write : Pen → Option Pen} {src buf : Bytes} {i j : Nat} (h : Writes write src)
    (hroom : i + src.length ≤ j) (hj : j ≤ buf.length) :
    buf.edit? i j write = some (buf.overwrite i src, src.length) := by
  have hslice : buf.slice? i j = some ((buf.take j).drop i) := if_pos (by omega)
  have hpart : ((buf.take j).drop i).length = j - i := by
    rw [List.length_drop, List.length_take_of_le hj]
  have hwrite := h [] ((buf.take j).drop i) (by omega)
  have hpage : buf.overwrite i (src ++ ((buf.take j).drop i).drop src.length) = buf.overwrite i src := by
    have hlen : (src ++ ((buf.take j).drop i).drop src.length).length = j - i := by
      rw [List.length_append, List.length_drop, hpart]
      omega
    have hrest : (buf.take j).drop (i + src.length) ++ buf.drop j = buf.drop (i + src.length) := by
      rw [← List.drop_append_of_le_length (by rw [List.length_take_of_le hj]; exact hroom),
        List.take_append_drop]
    rw [Bytes.overwrite, Bytes.overwrite, hlen, Nat.add_sub_of_le (by omega), List.drop_drop, ← hrest]
    simp only [List.append_assoc]
  rw [List.nil_append] at hwrite
  rw [Bytes.edit?, hslice]
  simp only [Option.bind_eq_bind, Option.bind_some, behind, List.nil_append, List.length_nil] at hwrite ⊢
  rw [hwrite, Option.bind_some, hpage]
  rfl

theorem Pen.Writes.fill?_eq {write : Pen → Option Pen} {src buf : Bytes} {i j : Nat} (h : Writes write src)
    (hroom : i + src.length ≤ j) (hj : j ≤ buf.length) : buf.fill? i j write = some (buf.overwrite i src) := by
  rw [Bytes.fill?, h.edit?_eq hroom hj]
  rfl

def Header.put? (h : Header) (total : Nat) (p : Pen) : Option Pen := do
  let p ← p.put? [frontGuard]
  let p ← p.put? (Bytes.toLE 2 total)
  let p ← p.put? [h.kind]
  let p ← p.put? [h.flags]
  let p ← p.put? (Bytes.toLE 4 h.owner.toNat)
  p.put? (Bytes.toLE 4 h.tick.toNat)

open Pen (Writes) in
theorem Header.writes_put (h : Header) (total : Nat) : Writes (h.put? total) (h.toBytes total) :=
  (Pen.writes_put [_]).then ((Pen.writes_put _).then ((Pen.writes_put [_]).then ((Pen.writes_put [_]).then
    ((Pen.writes_put _).then (Pen.writes_put _)))))

namespace Message

variable (m : Message)

def writeFields : Pen → Option Pen := m.entries.foldlM (flip Pen.putField?)

/-- The flag word goes in front of the fields, and `overhead` bytes are in front of them. -/
def putFlags? (overhead flags : Nat) (buf : Bytes) : Option Bytes := do
  let start ← Checked.sub overhead m.schema.flagWidth.bytes
  buf.fill? start buf.length (Pen.put? (Bytes.toLE m.schema.flagWidth.bytes flags))

/-- The fields must end where the measuring pass has their end. -/
def putFields? (overhead stop : Nat) (buf : Bytes) : Option Bytes := do
  let (buf, length) ← buf.edit? overhead stop m.writeFields
  if overhead + length = stop then return buf else none

def encodeTop? (h : Header) (buf : Bytes) : Option (Except Error Nat × Bytes) :=
  match m.measure with
  | .error e => return (.error e, buf)
  | .ok (flags, bodyLen) =>
    let overhead := m.schema.topOverhead
    let total := overhead + bodyLen + 1
    if maxPacketSize < total then return (.error (.oversized total), buf)
    else if buf.length < total then return (.error (.bufferTooSmall total buf.length), buf)
    else do
      let buf ← buf.fill? 0 buf.length (h.put? total)
      let buf ← m.putFlags? overhead flags buf
      let last ← Checked.sub total 1
      let buf ← m.putFields? overhead last buf
      let buf ← buf.fill? last total (Pen.put? [rearGuard])
      return (.ok total, buf)

def encodeNested? (buf : Bytes) : Option (Except Error Nat × Bytes) :=
  match m.measure with
  | .error e => return (.error e, buf)
  | .ok (flags, bodyLen) => do
    let overhead := m.schema.nestedOverhead
    let total := overhead + bodyLen
    let size ← Checked.sub total lengthWidth
    if maxPacketSize < size then return (.error (.oversized total), buf)
    else if buf.length < total then return (.error (.bufferTooSmall total buf.length), buf)
    else do
      let buf ← buf.fill? 0 lengthWidth (Pen.put? (Bytes.toLE 2 size))
      let buf ← m.putFlags? overhead flags buf
      let buf ← m.putFields? overhead total buf
      return (.ok total, buf)

def nestedBytes? : Option (Except Error Bytes) :=
  match m.nestedLen with
  | .error e => return .error e
  | .ok size => do
    let (written, buf) ← m.encodeNested? (List.replicate size 0)
    return written.map buf.take

variable {m} {flags n : Nat}

theorem measured_of_mem {entries : List (FieldSpec × Option FieldValue)} {sizes : List (Option Nat)}
    (h : List.Forall₂ Measured entries sizes) : ∀ entry ∈ entries, ∃ size, Measured entry size := by
  induction h with
  | nil =>
    intro entry hentry
    cases hentry
  | cons hentry _ ih =>
    intro entry hmem
    rcases List.mem_cons.mp hmem with rfl | hmem
    · exact ⟨_, hentry⟩
    · exact ih entry hmem

/-- The copying pass writes the body that was measured, and takes no more room than that. -/
theorem writeFields_writes (h : m.measure = .ok (flags, n)) : Pen.Writes m.writeFields m.body := by
  obtain ⟨sizes, hsizes, -, -⟩ := measure_eq_ok h
  refine Pen.writes_foldlM fun entry hentry ↦ ?_
  obtain ⟨size, hsize⟩ := measured_of_mem hsizes entry hentry
  exact Pen.writes_putField hsize

variable {buf : Bytes} {overhead stop : Nat}

theorem putFlags?_eq (flags : Nat) (hw : m.schema.flagWidth.bytes ≤ overhead)
    (hroom : overhead ≤ buf.length) : m.putFlags? overhead flags buf =
      some (buf.overwrite (overhead - m.schema.flagWidth.bytes)
        (Bytes.toLE m.schema.flagWidth.bytes flags)) := by
  have hword := Pen.writes_put (Bytes.toLE m.schema.flagWidth.bytes flags)
  have hlen : (Bytes.toLE m.schema.flagWidth.bytes flags).length = m.schema.flagWidth.bytes :=
    Bytes.length_toLE ..
  rw [putFlags?, Checked.sub_eq hw, Option.bind_eq_bind, Option.bind_some,
    hword.fill?_eq (by omega) (Nat.le_refl _)]

theorem putFields?_eq (h : m.measure = .ok (flags, n)) (hstop : overhead + m.body.length = stop)
    (hroom : stop ≤ buf.length) : m.putFields? overhead stop buf = some (buf.overwrite overhead m.body) := by
  rw [putFields?, (writeFields_writes h).edit?_eq (Nat.le_of_eq hstop) hroom, Option.bind_eq_bind,
    Option.bind_some]
  exact if_pos hstop

theorem encodeTop?_eq (m : Message) (h : Header) (buf : Bytes) :
    m.encodeTop? h buf = some (m.encodeTop h buf) := by
  unfold encodeTop? encodeTop
  cases hm : m.measure with
  | error e => rfl
  | ok measured =>
    obtain ⟨flags, bodyLen⟩ := measured
    have hbody := length_body_of_measure hm
    have hover : m.schema.topOverhead = headerLen + m.schema.flagWidth.bytes := rfl
    dsimp only
    split
    · rfl
    · split
      · rfl
      · next hroom =>
        generalize htotal : m.schema.topOverhead + bodyLen + 1 = total at hroom ⊢
        have hhead := Header.length_toBytes h total
        have hword : (Bytes.toLE m.schema.flagWidth.bytes flags).length = m.schema.flagWidth.bytes :=
          Bytes.length_toLE ..
        have hfirst : (buf.overwrite 0 (h.toBytes total)).length = buf.length :=
          Bytes.length_overwrite (by omega)
        have hsecond : ((buf.overwrite 0 (h.toBytes total)).overwrite headerLen
            (Bytes.toLE m.schema.flagWidth.bytes flags)).length = buf.length := by
          rw [Bytes.length_overwrite (by omega), hfirst]
        have hthird : (((buf.overwrite 0 (h.toBytes total)).overwrite headerLen
            (Bytes.toLE m.schema.flagWidth.bytes flags)).overwrite m.schema.topOverhead m.body).length =
              buf.length := by
          rw [Bytes.length_overwrite (by omega), hsecond]
        have hstart : m.schema.topOverhead - m.schema.flagWidth.bytes = headerLen := by omega
        simp only [Option.bind_eq_bind]
        rw [(h.writes_put total).fill?_eq (by omega) (Nat.le_refl _), Option.bind_some,
          putFlags?_eq flags (by omega) (by omega), hstart, Option.bind_some, Checked.sub_eq (by omega),
          Option.bind_some, putFields?_eq hm (by omega) (by omega), Option.bind_some,
          (Pen.writes_put [rearGuard]).fill?_eq (by rw [List.length_singleton]; omega) (by omega)]
        rfl

theorem encodeNested?_eq (m : Message) (buf : Bytes) :
    m.encodeNested? buf = some (m.encodeNested buf) := by
  unfold encodeNested? encodeNested
  cases hm : m.measure with
  | error e => rfl
  | ok measured =>
    obtain ⟨flags, bodyLen⟩ := measured
    have hbody := length_body_of_measure hm
    have hover : m.schema.nestedOverhead = lengthWidth + m.schema.flagWidth.bytes := rfl
    dsimp only
    rw [Checked.sub_eq (by omega)]
    simp only [Option.bind_eq_bind, Option.bind_some]
    split
    · rfl
    · split
      · rfl
      · next hroom =>
        generalize htotal : m.schema.nestedOverhead + bodyLen = total at hroom ⊢
        have hsize : (Bytes.toLE 2 (total - lengthWidth)).length = lengthWidth := Bytes.length_toLE ..
        have hword : (Bytes.toLE m.schema.flagWidth.bytes flags).length = m.schema.flagWidth.bytes :=
          Bytes.length_toLE ..
        have hfirst : (buf.overwrite 0 (Bytes.toLE 2 (total - lengthWidth))).length = buf.length :=
          Bytes.length_overwrite (by omega)
        have hsecond : ((buf.overwrite 0 (Bytes.toLE 2 (total - lengthWidth))).overwrite lengthWidth
            (Bytes.toLE m.schema.flagWidth.bytes flags)).length = buf.length := by
          rw [Bytes.length_overwrite (by omega), hfirst]
        have hstart : m.schema.nestedOverhead - m.schema.flagWidth.bytes = lengthWidth := by omega
        rw [(Pen.writes_put _).fill?_eq (by omega) (by omega), Option.bind_some,
          putFlags?_eq flags (by omega) (by omega), hstart, Option.bind_some,
          putFields?_eq hm (by omega) (by omega)]
        rfl

theorem nestedBytes_of_nestedLen {size : Nat} (h : m.nestedLen = .ok size) :
    m.nestedBytes = (m.encodeNested (List.replicate size 0)).1.map
      (m.encodeNested (List.replicate size 0)).2.take := by
  have hbind (x : Except Error Nat) (buf : Bytes) :
      (do let n ← x; return buf.take n) = x.map buf.take := by cases x <;> rfl
  unfold nestedBytes
  rw [h]
  exact hbind ..

theorem nestedBytes?_eq (m : Message) : m.nestedBytes? = some m.nestedBytes := by
  unfold nestedBytes?
  cases hlen : m.nestedLen with
  | error e =>
    unfold nestedBytes
    rw [hlen]
    rfl
  | ok size =>
    rw [nestedBytes_of_nestedLen hlen]
    dsimp only
    rw [encodeNested?_eq]
    rfl

end Message
end GameHost
