import GameHost.Proofs.Wire.Encoded

namespace GameHost

open FieldValue (isPacket)

namespace Bytes

variable {unit : Bytes}

theorem length_content_le (h : isPacket unit) : (unit.drop lengthWidth).length ≤ maxPacketSize := by
  obtain ⟨-, hlen⟩ := isPacket_iff.mp h
  have hlt := ofLE_take_lt lengthWidth unit
  have hlimit : limit lengthWidth = maxPacketSize + 1 := rfl
  rw [List.length_drop]
  omega

theorem length_append_content (h : isPacket unit) :
    toLE lengthWidth (unit.drop lengthWidth).length ++ unit.drop lengthWidth = unit := by
  obtain ⟨hl, hlen⟩ := isPacket_iff.mp h
  have hcount : (unit.drop lengthWidth).length = ofLE (unit.take lengthWidth) := by
    rw [List.length_drop]
    omega
  rw [hcount, toLE_ofLE_of_length (List.length_take_of_le hl), List.take_append_drop]

end Bytes

namespace Slot

def unit : Slot → Bytes
  | absent => []
  | fixed _ bs => bs
  | block bs => Bytes.toLE lengthWidth bs.length ++ bs
  | packet bs => bs
  | array count region => count :: region

/-- An array without elements counts as absent. -/
def tidy : Slot → Slot
  | array count region => if count = 0 then absent else array count region
  | slot => slot

def size? (slot : Slot) : Option Nat := if slot = absent then none else some slot.unit.length

def value? : Slot → Option FieldValue
  | absent => none
  | fixed _ bs => some (.raw bs)
  | block bs => some (.block bs)
  | packet bs => some (.packet bs)
  | array count region => some (.packets (⟨region, count.toNat⟩ : PacketIter).toList)

inductive Fits (spec : FieldSpec) : Slot → Prop
  | absent : Fits spec .absent
  | fixed {bs : Bytes} (fixed : spec.ty.isFixed) (size : bs.length = spec.fixedLen) :
      Fits spec (.fixed spec.ty bs)
  | block {bs : Bytes} (block : spec.ty = .memoryBlock) (size : bs.length ≤ maxPacketSize) :
      Fits spec (.block bs)
  | packet {bs : Bytes} (packet : spec.ty = .packet) (single : spec.isPacketArray = false)
      (counted : isPacket bs) : Fits spec (.packet bs)
  | array {count : UInt8} {elements : List Bytes} (many : spec.isPacketArray)
      (number : count.toNat = elements.length) (room : count.toNat ≤ spec.count.toNat)
      (counted : ∀ e ∈ elements, isPacket e) : Fits spec (.array count elements.flatten)

variable {spec : FieldSpec} {slot : Slot} {bs rest : Bytes}

theorem isSome_size? (slot : Slot) : slot.size?.isSome = (slot != absent) := by
  by_cases h : slot = absent
  · simp [size?, h]
  · simp [size?, h]

theorem unit_tidy_sublist (slot : Slot) : slot.tidy.unit.Sublist slot.unit := by
  cases slot with
  | array count region =>
    by_cases h : count = 0
    · simp [tidy, h, unit]
    · simp [tidy, h]
  | _ => exact List.Sublist.refl _

theorem tidy_ne_absent (d : View) (i : Nat) :
    ((d.slot i).tidy != absent) = ((d.slot i != absent) && (d.packetCount i != some 0)) := by
  unfold View.packetCount
  cases d.slot i with
  | array count region =>
    by_cases h : count = 0
    · simp [tidy, h]
    · have hn : count.toNat ≠ 0 := fun h0 ↦ h (UInt8.toNat_inj.mp h0)
      simp [tidy, h, hn]
  | _ => rfl

theorem Fits.tidy (h : Fits spec slot) : Fits spec slot.tidy := by
  cases h with
  | @array count elements many number room counted =>
    by_cases h : count = 0
    · simp only [Slot.tidy, h, if_true]
      exact .absent
    · simp only [Slot.tidy, h, if_false]
      exact .array many number room counted
  | absent => exact .absent
  | fixed fixed size => exact .fixed fixed size
  | block block size => exact .block block size
  | packet packet single counted => exact .packet packet single counted

theorem fits_of_ofBytes (h : ofBytes spec bs = .ok (slot, rest)) :
    Fits spec slot ∧ slot ≠ absent ∧ bs = slot.unit ++ rest := by
  rcases spec.kinds with hf | hb | ⟨hp, hs⟩ | ha
  · rw [ofBytes_fixed hf] at h
    obtain ⟨⟨content, left⟩, hcut, hleft⟩ := Except.bind_eq_ok.mp h
    obtain ⟨rfl, rfl⟩ := Prod.mk.inj (Except.pure_eq_ok.mp hleft)
    obtain ⟨rfl, hl⟩ := Bytes.cut_eq_ok.mp hcut
    exact ⟨.fixed hf hl, by simp, rfl⟩
  · rw [ofBytes_block hb] at h
    obtain ⟨⟨content, left⟩, hcut, hleft⟩ := Except.bind_eq_ok.mp h
    obtain ⟨rfl, rfl⟩ := Prod.mk.inj (Except.pure_eq_ok.mp hleft)
    obtain ⟨hu, rfl⟩ := Bytes.cutPrefixed_eq_ok.mp hcut
    refine ⟨.block hb (Bytes.length_content_le hu), by simp, ?_⟩
    rw [unit, Bytes.length_append_content hu]
  · rw [ofBytes_packet hp hs] at h
    obtain ⟨⟨content, left⟩, hcut, hleft⟩ := Except.bind_eq_ok.mp h
    obtain ⟨rfl, rfl⟩ := Prod.mk.inj (Except.pure_eq_ok.mp hleft)
    obtain ⟨hu, rfl⟩ := Bytes.cutPrefixed_eq_ok.mp hcut
    exact ⟨.packet hp hs hu, by simp, rfl⟩
  · cases bs with
    | nil =>
      rw [ofBytes_array_nil ha] at h
      cases h
    | cons count bs =>
      rw [ofBytes_array_cons ha] at h
      split at h
      · cases h
      · next hc =>
        obtain ⟨⟨region, left⟩, hcut, hleft⟩ := Except.bind_eq_ok.mp h
        obtain ⟨rfl, rfl⟩ := Prod.mk.inj (Except.pure_eq_ok.mp hleft)
        obtain ⟨elements, he, hn, rfl, rfl⟩ := Bytes.cutUnits_eq_ok hcut
        exact ⟨.array ha hn.symm (by omega) he, by simp, rfl⟩

theorem Fits.ofBytes (h : Fits spec slot) (hne : slot ≠ .absent) (rest : Bytes) :
    Slot.ofBytes spec (slot.unit ++ rest) = .ok (slot, rest) := by
  cases h with
  | absent => exact absurd rfl hne
  | fixed hf hl =>
    rw [ofBytes_fixed hf]
    exact Except.bind_eq_ok.mpr ⟨_, Bytes.cut_eq_ok.mpr ⟨rfl, hl⟩, rfl⟩
  | @block bs hb hl =>
    have hdrop : (Bytes.toLE lengthWidth bs.length ++ bs).drop lengthWidth = bs :=
      List.drop_left' (Bytes.length_toLE ..)
    rw [ofBytes_block hb]
    refine Except.bind_eq_ok.mpr ⟨_, Bytes.cutPrefixed_eq_ok.mpr ⟨FieldValue.isPacket_block hl, rfl⟩, ?_⟩
    rw [Except.pure_eq_ok, hdrop]
  | packet hp hs hu =>
    rw [ofBytes_packet hp hs]
    exact Except.bind_eq_ok.mpr ⟨_, Bytes.cutPrefixed_eq_ok.mpr ⟨hu, rfl⟩, rfl⟩
  | array ha hn hr he =>
    rw [unit, List.cons_append, ofBytes_array_cons ha, if_neg (by omega), hn]
    exact Except.bind_eq_ok.mpr ⟨_, Bytes.cutUnits_flatten he rest, rfl⟩

open Message (Measured unitOf) in
theorem Fits.measured (h : Fits spec slot) :
    Measured (spec, slot.value?) slot.tidy.size? ∧ unitOf (spec, slot.value?) = slot.tidy.unit := by
  cases h with
  | absent => exact ⟨rfl, rfl⟩
  | fixed hf hl =>
    refine ⟨FieldValue.sizeIn_raw.mpr ⟨hf, Nat.le_of_eq hl, ?_⟩, Bytes.padTo_of_length_eq hl⟩
    rw [← hl]
    rfl
  | @block bs hb hl =>
    refine ⟨FieldValue.sizeIn_block.mpr ⟨hb, hl, ?_⟩, rfl⟩
    simp [size?, Slot.tidy, unit]
  | packet hp hs hu =>
    refine ⟨FieldValue.sizeIn_packet.mpr ⟨hp, hu, ?_⟩, ?_⟩
    · simp [size?, Slot.tidy, unit, hs]
    · simp [unitOf, value?, FieldValue.bytesIn, Slot.tidy, unit, hs]
  | @array count elements ha hn hr he =>
    have hlist : (⟨elements.flatten, count.toNat⟩ : PacketIter).toList = elements := by
      rw [hn, PacketIter.toList_flatten he]
    have hbyte := count.toNat_lt
    rw [value?, hlist]
    cases elements with
    | nil =>
      have hzero : count = 0 := UInt8.toNat_inj.mp hn
      subst hzero
      exact ⟨FieldValue.sizeIn_packets.mpr ⟨ha, .inl ⟨rfl, rfl⟩⟩, rfl⟩
    | cons e es =>
      have hcount : UInt8.ofNat (e :: es).length = count := by rw [← hn, UInt8.ofNat_toNat]
      have hzero : count ≠ 0 := by
        rintro rfl
        simp at hn
      have hroom : (e :: es).length ≤ spec.count.toNat := by omega
      have hsmall : (e :: es).length ≤ 255 := by omega
      refine ⟨FieldValue.sizeIn_packets.mpr ⟨ha, .inr ⟨by simp, hroom, hsmall, he, ?_⟩⟩, ?_⟩
      · simp [size?, Slot.tidy, hzero, unit, Nat.add_comm]
      · simp only [unitOf, Option.map_some, Option.getD_some, FieldValue.bytesIn, hcount, Slot.tidy,
          hzero, if_false, unit]

section listOfBytes

variable {flags i : Nat} {specs : List FieldSpec} {slots : List Slot}

theorem testBit_cons {slot : Slot} (bit : flags.testBit i = (slot != .absent))
    (bits : ∀ j < slots.length, flags.testBit (i + 1 + j) = (slots.getD j .absent != .absent)) :
    ∀ j < (slot :: slots).length, flags.testBit (i + j) = ((slot :: slots).getD j .absent != .absent) := by
  intro j hj
  cases j with
  | zero => exact bit
  | succ j =>
    rw [Nat.add_comm j 1, ← Nat.add_assoc, bits j (Nat.lt_of_succ_lt_succ hj), Nat.add_comm 1 j,
      List.getD_cons_succ]

/-- The reader finds a slot that fits for each field, present where its bit is set, and leaves what
stands behind their units. -/
theorem fits_of_listOfBytes (h : listOfBytes flags i specs bs = .ok (slots, rest)) :
    List.Forall₂ Fits specs slots ∧ bs = (slots.map unit).flatten ++ rest ∧
      ∀ j < slots.length, flags.testBit (i + j) = (slots.getD j .absent != .absent) := by
  induction specs generalizing i bs slots with
  | nil =>
    simp only [listOfBytes, Except.ok.injEq, Prod.mk.injEq] at h
    obtain ⟨rfl, rfl⟩ := h
    exact ⟨.nil, rfl, by simp⟩
  | cons spec specs ih =>
    rw [listOfBytes] at h
    split at h
    · next bit =>
      obtain ⟨⟨slot, more⟩, hslot, hmore⟩ := Except.bind_eq_ok.mp h
      obtain ⟨⟨others, left⟩, hothers, hleft⟩ := Except.bind_eq_ok.mp hmore
      obtain ⟨rfl, rfl⟩ := Prod.mk.inj (Except.pure_eq_ok.mp hleft)
      obtain ⟨hfits, hne, rfl⟩ := fits_of_ofBytes hslot
      obtain ⟨hrest, rfl, hbits⟩ := ih hothers
      refine ⟨.cons hfits hrest, ?_, testBit_cons ?_ hbits⟩
      · rw [List.map_cons, List.flatten_cons, List.append_assoc]
      · rw [bit, bne_iff_ne.mpr hne]
    · next bit =>
      obtain ⟨⟨others, left⟩, hothers, hleft⟩ := Except.bind_eq_ok.mp h
      obtain ⟨rfl, rfl⟩ := Prod.mk.inj (Except.pure_eq_ok.mp hleft)
      obtain ⟨hrest, rfl, hbits⟩ := ih hothers
      exact ⟨.cons .absent hrest, rfl, testBit_cons (Bool.eq_false_iff.mpr bit) hbits⟩

theorem listOfBytes_of_fits (h : List.Forall₂ Fits specs slots)
    (bits : ∀ j, flags.testBit (i + j) = (slots.map (· != .absent)).getD j false) (rest : Bytes) :
    listOfBytes flags i specs ((slots.map unit).flatten ++ rest) = .ok (slots, rest) := by
  induction h generalizing i with
  | nil => rfl
  | @cons spec slot specs slots hslot _ ih =>
    have hrest := ih fun j ↦ by
      rw [Nat.add_assoc, Nat.add_comm 1 j, bits]
      rfl
    have hbit : flags.testBit i = (slot != .absent) := bits 0
    rw [listOfBytes, hbit, List.map_cons, List.flatten_cons, List.append_assoc]
    by_cases hne : slot = .absent
    · subst hne
      exact Except.bind_eq_ok.mpr ⟨_, hrest, rfl⟩
    · rw [if_pos (bne_iff_ne.mpr hne)]
      exact Except.bind_eq_ok.mpr ⟨_, hslot.ofBytes hne _, Except.bind_eq_ok.mpr ⟨_, hrest, rfl⟩⟩

end listOfBytes

end Slot
end GameHost
