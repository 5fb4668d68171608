import GameHost.Proofs.Wire.Envelope

namespace GameHost

def topForm (h : Header) (w : FlagWidth) (flags : Nat) (body : Bytes) : Bytes :=
  h.toBytes (headerLen + w.bytes + body.length + 1) ++ (Bytes.toLE w.bytes flags ++ (body ++ [rearGuard]))

def nestedForm (w : FlagWidth) (flags : Nat) (body : Bytes) : Bytes :=
  Bytes.toLE lengthWidth (w.bytes + body.length) ++ (Bytes.toLE w.bytes flags ++ body)

variable {s : Schema} {h : Header} {flags : Nat} {body : Bytes}

theorem length_topForm (h : Header) (w : FlagWidth) (flags : Nat) (body : Bytes) :
    (topForm h w flags body).length = headerLen + w.bytes + body.length + 1 := by
  simp only [topForm, List.length_append, Header.length_toBytes, Bytes.length_toLE,
    List.length_singleton]
  omega

theorem length_nestedForm (w : FlagWidth) (flags : Nat) (body : Bytes) :
    (nestedForm w flags body).length = lengthWidth + w.bytes + body.length := by
  simp only [nestedForm, List.length_append, Bytes.length_toLE]
  omega

def topFront (h : Header) (w : FlagWidth) (flags : Nat) (body : Bytes) : Bytes :=
  h.toBytes (headerLen + w.bytes + body.length + 1) ++ Bytes.toLE w.bytes flags

def nestedFront (w : FlagWidth) (flags : Nat) (body : Bytes) : Bytes :=
  Bytes.toLE lengthWidth (w.bytes + body.length) ++ Bytes.toLE w.bytes flags

theorem length_topFront (s : Schema) (h : Header) (flags : Nat) (body : Bytes) :
    (topFront h s.flagWidth flags body).length = s.topOverhead := by
  rw [topFront, List.length_append, Header.length_toBytes, Bytes.length_toLE, Schema.topOverhead]

theorem length_nestedFront (s : Schema) (flags : Nat) (body : Bytes) :
    (nestedFront s.flagWidth flags body).length = s.nestedOverhead := by
  rw [nestedFront, List.length_append, Bytes.length_toLE, Bytes.length_toLE, Schema.nestedOverhead]

theorem topForm_append (rest : Bytes) : topForm h s.flagWidth flags body ++ rest =
    topFront h s.flagWidth flags body ++ body ++ rearGuard :: rest := by
  simp only [topForm, topFront, List.append_assoc, List.singleton_append]

theorem nestedForm_append (rest : Bytes) : nestedForm s.flagWidth flags body ++ rest =
    nestedFront s.flagWidth flags body ++ body ++ rest := by
  simp only [nestedForm, nestedFront, List.append_assoc]

theorem header_topForm (rest : Bytes) :
    Header.ofBytes (topForm h s.flagWidth flags body ++ rest) = h := by
  rw [topForm, List.append_assoc, Header.ofBytes_toBytes]

theorem declaredLen_topForm (hsize : s.topOverhead + body.length + 1 ≤ maxPacketSize) (rest : Bytes) :
    Header.declaredLen (topForm h s.flagWidth flags body ++ rest) = s.topOverhead + body.length + 1 := by
  rw [topForm, List.append_assoc, ← Schema.topOverhead, Header.declaredLen_toBytes h hsize]

theorem nestedLen_nestedForm (hsize : s.flagWidth.bytes + body.length ≤ maxPacketSize) (rest : Bytes) :
    Schema.nestedLen (nestedForm s.flagWidth flags body ++ rest) = s.flagWidth.bytes + body.length := by
  rw [Schema.nestedLen, nestedForm, List.append_assoc, List.take_left' (Bytes.length_toLE ..)]
  exact Bytes.ofLE_toLE_of_lt (Nat.lt_succ_of_le hsize)

theorem topFlags_topForm (hflags : flags < Bytes.limit s.flagWidth.bytes) (rest : Bytes) :
    s.topFlags (topForm h s.flagWidth flags body ++ rest) = flags := by
  rw [Schema.topFlags, topForm, List.append_assoc, List.drop_left' (Header.length_toBytes ..),
    List.append_assoc, List.take_left' (Bytes.length_toLE ..), Bytes.ofLE_toLE_of_lt hflags]

theorem nestedFlags_nestedForm (hflags : flags < Bytes.limit s.flagWidth.bytes) (rest : Bytes) :
    s.nestedFlags (nestedForm s.flagWidth flags body ++ rest) = flags := by
  rw [Schema.nestedFlags, nestedForm, List.append_assoc, List.drop_left' (Bytes.length_toLE ..),
    List.append_assoc, List.take_left' (Bytes.length_toLE ..), Bytes.ofLE_toLE_of_lt hflags]

theorem topRegion_topForm (hsize : s.topOverhead + body.length + 1 ≤ maxPacketSize) (rest : Bytes) :
    s.topRegion (topForm h s.flagWidth flags body ++ rest) = body := by
  have hbefore : (topFront h s.flagWidth flags body ++ body).length = s.topOverhead + body.length := by
    rw [List.length_append, length_topFront]
  rw [Schema.topRegion, declaredLen_topForm hsize, Nat.add_sub_cancel, topForm_append,
    List.take_left' hbefore, List.drop_left' (length_topFront ..)]

theorem nestedRegion_nestedForm (hsize : s.flagWidth.bytes + body.length ≤ maxPacketSize) (rest : Bytes) :
    s.nestedRegion (nestedForm s.flagWidth flags body ++ rest) = body := by
  have hbefore : (nestedFront s.flagWidth flags body ++ body).length =
      lengthWidth + (s.flagWidth.bytes + body.length) := by
    rw [List.length_append, length_nestedFront, Schema.nestedOverhead, Nat.add_assoc]
  rw [Schema.nestedRegion, nestedLen_nestedForm hsize, nestedForm_append, List.take_left' hbefore,
    List.drop_left' (length_nestedFront ..)]

theorem topChecks_topForm (hsize : s.topOverhead + body.length + 1 ≤ maxPacketSize) (rest : Bytes) :
    ∀ check ∈ s.topChecks (topForm h s.flagWidth flags body ++ rest), check.1 = true := by
  have hlen := length_topForm h s.flagWidth flags body
  have hbefore : (topFront h s.flagWidth flags body ++ body).length = s.topOverhead + body.length := by
    rw [List.length_append, length_topFront]
  rw [Schema.topChecks_hold, declaredLen_topForm hsize, Nat.add_sub_cancel, List.length_append, hlen]
  refine ⟨?_, rfl, ?_, ?_, ?_⟩
  · rw [Schema.topOverhead]
    omega
  · omega
  · rw [Schema.topOverhead]
    omega
  · rw [topForm_append, List.getElem?_append_right (by omega), hbefore, Nat.sub_self]
    rfl

theorem nestedChecks_nestedForm (hsize : s.flagWidth.bytes + body.length ≤ maxPacketSize) (rest : Bytes) :
    ∀ check ∈ s.nestedChecks (nestedForm s.flagWidth flags body ++ rest), check.1 = true := by
  have hlen := length_nestedForm s.flagWidth flags body
  rw [Schema.nestedChecks_hold, nestedLen_nestedForm hsize, List.length_append, hlen]
  omega

theorem decodeTop?_topForm (hflags : flags < Bytes.limit s.flagWidth.bytes)
    (hsize : s.topOverhead + body.length + 1 ≤ maxPacketSize) (rest : Bytes) :
    s.decodeTop? (topForm h s.flagWidth flags body ++ rest) = s.viewOf (some h) flags body := by
  rw [Schema.decodeTop?_eq, checked, firstFault_eq_none.mpr (topChecks_topForm hsize rest),
    header_topForm, topFlags_topForm hflags, topRegion_topForm hsize]

theorem decodeNested?_nestedForm (hflags : flags < Bytes.limit s.flagWidth.bytes)
    (hsize : s.flagWidth.bytes + body.length ≤ maxPacketSize) (rest : Bytes) :
    s.decodeNested? (nestedForm s.flagWidth flags body ++ rest) = s.viewOf none flags body := by
  rw [Schema.decodeNested?_eq, checked, firstFault_eq_none.mpr (nestedChecks_nestedForm hsize rest),
    nestedFlags_nestedForm hflags, nestedRegion_nestedForm hsize]

variable {data : Bytes}

theorem length_topRegion (h : ∀ check ∈ s.topChecks data, check.1 = true) :
    s.topOverhead + (s.topRegion data).length + 1 = Header.declaredLen data := by
  obtain ⟨-, -, hmin, hlen, -⟩ := (s.topChecks_hold data).mp h
  rw [Schema.topRegion, List.length_drop, List.length_take]
  omega

theorem length_nestedRegion (h : ∀ check ∈ s.nestedChecks data, check.1 = true) :
    s.flagWidth.bytes + (s.nestedRegion data).length = Schema.nestedLen data := by
  obtain ⟨-, hlen, hmin⟩ := (s.nestedChecks_hold data).mp h
  rw [Schema.nestedRegion, List.length_drop, List.length_take, Schema.nestedOverhead]
  omega

theorem take_declaredLen (h : ∀ check ∈ s.topChecks data, check.1 = true) :
    data.take (Header.declaredLen data) =
      topForm (Header.ofBytes data) s.flagWidth (s.topFlags data) (s.topRegion data) := by
  have hlen := length_topRegion h
  obtain ⟨hmin, hfront, -, -, hrear⟩ := (s.topChecks_hold data).mp h
  have hover : s.topOverhead = headerLen + s.flagWidth.bytes := rfl
  have hheader := Header.toBytes_ofBytes (by omega : headerLen ≤ data.length) hfront
  have hword : Bytes.toLE s.flagWidth.bytes (s.topFlags data) =
      (data.drop headerLen).take s.flagWidth.bytes := by
    refine Bytes.toLE_ofLE_of_length ?_
    rw [List.length_take, List.length_drop]
    omega
  have hbody : s.topRegion data = (data.drop s.topOverhead).take (s.topRegion data).length := by
    have hrest : Header.declaredLen data - 1 - s.topOverhead = (s.topRegion data).length := by omega
    rw [← hrest, Schema.topRegion, List.drop_take]
  rw [← hlen, Nat.add_sub_cancel] at hrear
  rw [topForm, ← hover, hlen, hheader, hword, ← hlen, List.take_add_one, hrear, List.take_add, ← hbody, hover,
    List.take_add]
  simp only [List.append_assoc, Option.toList_some]

theorem take_nestedLen (h : ∀ check ∈ s.nestedChecks data, check.1 = true) :
    data.take (lengthWidth + Schema.nestedLen data) =
      nestedForm s.flagWidth (s.nestedFlags data) (s.nestedRegion data) := by
  have hlen := length_nestedRegion h
  obtain ⟨hmin, hend, -⟩ := (s.nestedChecks_hold data).mp h
  have hprefix : Bytes.toLE lengthWidth (Schema.nestedLen data) = data.take lengthWidth :=
    Bytes.toLE_ofLE_of_length (List.length_take_of_le hmin)
  have hword : Bytes.toLE s.flagWidth.bytes (s.nestedFlags data) =
      (data.drop lengthWidth).take s.flagWidth.bytes := by
    refine Bytes.toLE_ofLE_of_length ?_
    rw [List.length_take, List.length_drop]
    omega
  have hbody : s.nestedRegion data = (data.drop s.nestedOverhead).take (s.nestedRegion data).length := by
    have hover : s.nestedOverhead = lengthWidth + s.flagWidth.bytes := rfl
    have hrest : lengthWidth + Schema.nestedLen data - s.nestedOverhead = (s.nestedRegion data).length := by
      omega
    rw [← hrest, Schema.nestedRegion, List.drop_take]
  rw [nestedForm, hlen, hprefix, hword, ← hlen, ← Nat.add_assoc, List.take_add, List.take_add,
    ← Schema.nestedOverhead, ← hbody, List.append_assoc]

end GameHost
