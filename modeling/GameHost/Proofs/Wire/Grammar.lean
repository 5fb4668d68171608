import GameHost.Proofs.Wire.Reading

/-!
The grammar of the fields of a message, apart from any reader.

`Parses` says which units stand for which readings, field by field; `Breaks` says at which field and
why no such units stand at the front of a string. `Slot.listOfBytes_eq_ok` and `Parses.listOfBytes`
say that the reader accepts what parses and gives its readings, `Slot.listOfBytes_eq_error` that it
refuses the rest for the first field that breaks.
-/

namespace GameHost

open FieldValue (isPacket)

/-- The unit of a present field and what is read from it. -/
inductive Spells (spec : FieldSpec) : Bytes → Reading → Prop
  | fixed {unit : Bytes} (fixed : spec.ty.isFixed) (size : unit.length = spec.fixedLen) :
      Spells spec unit (.ofFixed spec.ty unit)
  | block {unit : Bytes} (block : spec.ty = .memoryBlock) (counted : isPacket unit) :
      Spells spec unit (.ofBlock (unit.drop lengthWidth))
  | packet {unit : Bytes} (packet : spec.ty = .packet) (single : spec.isPacketArray = false)
      (counted : isPacket unit) : Spells spec unit (.ofPacket unit)
  | array {count : UInt8} {elements : List Bytes} (many : spec.isPacketArray)
      (number : count.toNat = elements.length) (room : count.toNat ≤ spec.count.toNat)
      (counted : ∀ e ∈ elements, isPacket e) :
      Spells spec (count :: elements.flatten) (.ofPackets elements)

/-- One unit for each field from index `i` on, empty where the bit of the field is not set. -/
inductive Parses (flags : Nat) : Nat → List FieldSpec → List Bytes → List Reading → Prop
  | nil (i : Nat) : Parses flags i [] [] []
  | absent {i : Nat} {spec : FieldSpec} {specs : List FieldSpec} {units : List Bytes}
      {readings : List Reading} (bit : flags.testBit i = false)
      (more : Parses flags (i + 1) specs units readings) :
      Parses flags i (spec :: specs) ([] :: units) (.absent :: readings)
  | present {i : Nat} {spec : FieldSpec} {specs : List FieldSpec} {unit : Bytes} {reading : Reading}
      {units : List Bytes} {readings : List Reading} (bit : flags.testBit i = true)
      (spells : Spells spec unit reading) (more : Parses flags (i + 1) specs units readings) :
      Parses flags i (spec :: specs) (unit :: units) (reading :: readings)

/-- What is wrong with `bs` if no unit of the field stands at its front. -/
def FieldSpec.fault (spec : FieldSpec) (bs : Bytes) : DecodeFault :=
  if spec.isPacketArray && bs.head?.any fun count ↦ decide (spec.count.toNat < count.toNat) then
    .arrayOverflow
  else .truncated

/-- The first field from index `i` on whose bit is set and whose unit does not stand in its place. -/
inductive Breaks (flags : Nat) : Nat → List FieldSpec → Bytes → DecodeFault → Prop
  | absent {i : Nat} {spec : FieldSpec} {specs : List FieldSpec} {bs : Bytes} {fault : DecodeFault}
      (bit : flags.testBit i = false) (more : Breaks flags (i + 1) specs bs fault) :
      Breaks flags i (spec :: specs) bs fault
  | here {i : Nat} {spec : FieldSpec} {specs : List FieldSpec} {bs : Bytes}
      (bit : flags.testBit i = true)
      (none : ∀ unit reading rest, Spells spec unit reading → bs ≠ unit ++ rest) :
      Breaks flags i (spec :: specs) bs (spec.fault bs)
  | later {i : Nat} {spec : FieldSpec} {specs : List FieldSpec} {unit rest : Bytes}
      {reading : Reading} {fault : DecodeFault} (bit : flags.testBit i = true)
      (spells : Spells spec unit reading) (more : Breaks flags (i + 1) specs rest fault) :
      Breaks flags i (spec :: specs) (unit ++ rest) fault

namespace FieldSpec

variable {spec : FieldSpec}

theorem ty_of_isPacketArray (h : spec.isPacketArray) : spec.ty = .packet := by
  simp only [isPacketArray, Bool.and_eq_true, beq_iff_eq] at h
  exact h.1

theorem one_lt_count (spec : FieldSpec) (h : spec.isPacketArray) : 1 < spec.count.toNat := by
  simp only [isPacketArray, Bool.and_eq_true, decide_eq_true_eq] at h
  exact h.2

theorem kinds (spec : FieldSpec) : spec.ty.isFixed ∨ spec.ty = .memoryBlock ∨
    (spec.ty = .packet ∧ spec.isPacketArray = false) ∨ spec.isPacketArray = true := by
  cases ha : spec.isPacketArray
  · cases ht : spec.ty <;> simp [FieldType.isFixed]
  · simp

theorem fault_of_not_array (h : spec.isPacketArray = false) (bs : Bytes) :
    spec.fault bs = .truncated := by simp [fault, h]

theorem not_array_of_isFixed (h : spec.ty.isFixed) : spec.isPacketArray = false := by
  cases ht : spec.ty <;> simp_all [FieldType.isFixed, isPacketArray]

end FieldSpec

namespace Slot

variable {spec : FieldSpec} {bs rest : Bytes} {slot : Slot} {fault : DecodeFault}

theorem ofBytes_fixed (h : spec.ty.isFixed) : ofBytes spec bs = (do
    let (content, rest) ← bs.cut spec.fixedLen
    return (.fixed spec.ty content, rest)) := by
  unfold ofBytes
  split
  · next ht => simp [ht, FieldType.isFixed] at h
  · next ht => simp [ht, FieldType.isFixed] at h
  · rfl

theorem ofBytes_block (h : spec.ty = .memoryBlock) : ofBytes spec bs = (do
    let (unit, rest) ← bs.cutPrefixed
    return (.block (unit.drop lengthWidth), rest)) := by
  simp only [ofBytes, h]

theorem ofBytes_packet (h : spec.ty = .packet) (hs : spec.isPacketArray = false) :
    ofBytes spec bs = (do
      let (unit, rest) ← bs.cutPrefixed
      return (.packet unit, rest)) := by
  simp only [ofBytes, h, hs, Bool.false_eq_true, if_false]

theorem ofBytes_array_nil (h : spec.isPacketArray) : ofBytes spec [] = .error .truncated := by
  simp only [ofBytes, FieldSpec.ty_of_isPacketArray h, h, if_true]
  rfl

theorem ofBytes_array_cons (h : spec.isPacketArray) (count : UInt8) :
    ofBytes spec (count :: bs) = if spec.count.toNat < count.toNat then .error .arrayOverflow else do
      let (region, rest) ← bs.cutUnits count.toNat
      return (.array count region, rest) := by
  have hcut : Bytes.cut 1 (count :: bs) = .ok ([count], bs) := Bytes.cut_append [count] bs
  simp only [ofBytes, FieldSpec.ty_of_isPacketArray h, h, if_true, hcut]
  by_cases hc : spec.count.toNat < count.toNat
  · simp only [bind, Except.bind, List.headD_cons, hc, if_true]
    rfl
  · simp only [bind, Except.bind, List.headD_cons, hc, if_false]

theorem ofBytes_eq_ok (h : ofBytes spec bs = .ok (slot, rest)) :
    ∃ unit, Spells spec unit slot.reading ∧ bs = unit ++ rest := by
  rcases spec.kinds with hf | hb | ⟨hp, hs⟩ | ha
  · rw [ofBytes_fixed hf] at h
    obtain ⟨⟨content, left⟩, hcut, hleft⟩ := Except.bind_eq_ok.mp h
    obtain ⟨rfl, rfl⟩ := Prod.mk.inj (Except.pure_eq_ok.mp hleft)
    obtain ⟨rfl, hl⟩ := Bytes.cut_eq_ok.mp hcut
    exact ⟨content, .fixed hf hl, rfl⟩
  · rw [ofBytes_block hb] at h
    obtain ⟨⟨unit, left⟩, hcut, hleft⟩ := Except.bind_eq_ok.mp h
    obtain ⟨rfl, rfl⟩ := Prod.mk.inj (Except.pure_eq_ok.mp hleft)
    obtain ⟨hu, rfl⟩ := Bytes.cutPrefixed_eq_ok.mp hcut
    exact ⟨unit, .block hb hu, rfl⟩
  · rw [ofBytes_packet hp hs] at h
    obtain ⟨⟨unit, left⟩, hcut, hleft⟩ := Except.bind_eq_ok.mp h
    obtain ⟨rfl, rfl⟩ := Prod.mk.inj (Except.pure_eq_ok.mp hleft)
    obtain ⟨hu, rfl⟩ := Bytes.cutPrefixed_eq_ok.mp hcut
    exact ⟨unit, .packet hp hs hu, rfl⟩
  · cases bs with
    | nil => rw [ofBytes_array_nil ha] at h; cases h
    | cons count bs =>
      rw [ofBytes_array_cons ha] at h
      split at h
      · cases h
      · next hc =>
        obtain ⟨⟨region, left⟩, hcut, hleft⟩ := Except.bind_eq_ok.mp h
        obtain ⟨rfl, rfl⟩ := Prod.mk.inj (Except.pure_eq_ok.mp hleft)
        obtain ⟨elements, he, hn, rfl, rfl⟩ := Bytes.cutUnits_eq_ok hcut
        refine ⟨count :: elements.flatten, ?_, rfl⟩
        rw [reading, ← hn, PacketIter.toList_flatten he]
        exact .array ha hn.symm (by omega) he

theorem ofBytes_eq_error (h : ofBytes spec bs = .error fault) : fault = spec.fault bs := by
  rcases spec.kinds with hf | hb | ⟨hp, hs⟩ | ha
  · rw [ofBytes_fixed hf] at h
    rw [FieldSpec.fault_of_not_array (FieldSpec.not_array_of_isFixed hf)]
    rcases Except.bind_eq_error.mp h with h | ⟨_, -, h⟩
    · exact (Bytes.cut_eq_error.mp h).1
    · exact absurd h Except.pure_ne_error
  · rw [ofBytes_block hb] at h
    rw [FieldSpec.fault_of_not_array (by simp [FieldSpec.isPacketArray, hb])]
    rcases Except.bind_eq_error.mp h with h | ⟨_, -, h⟩
    · exact Bytes.cutPrefixed_eq_error h
    · exact absurd h Except.pure_ne_error
  · rw [ofBytes_packet hp hs] at h
    rw [FieldSpec.fault_of_not_array hs]
    rcases Except.bind_eq_error.mp h with h | ⟨_, -, h⟩
    · exact Bytes.cutPrefixed_eq_error h
    · exact absurd h Except.pure_ne_error
  · cases bs with
    | nil =>
      rw [ofBytes_array_nil ha] at h
      simpa [FieldSpec.fault, eq_comm] using h
    | cons count bs =>
      rw [ofBytes_array_cons ha] at h
      by_cases hc : spec.count.toNat < count.toNat
      · rw [if_pos hc] at h
        simpa [FieldSpec.fault, ha, hc, eq_comm] using h
      · rw [if_neg hc] at h
        rcases Except.bind_eq_error.mp h with h | ⟨_, -, h⟩
        · simpa [FieldSpec.fault, hc] using Bytes.cutUnits_eq_error h
        · exact absurd h Except.pure_ne_error

end Slot

/-- Whatever follows a unit, the reader takes the unit and reads from it what it spells. -/
theorem Spells.ofBytes {spec : FieldSpec} {unit : Bytes} {reading : Reading}
    (h : Spells spec unit reading) (rest : Bytes) :
    ∃ slot, Slot.ofBytes spec (unit ++ rest) = .ok (slot, rest) ∧ slot.reading = reading := by
  cases h with
  | fixed hf hl =>
    refine ⟨.fixed spec.ty unit, ?_, rfl⟩
    rw [Slot.ofBytes_fixed hf]
    exact Except.bind_eq_ok.mpr ⟨_, Bytes.cut_eq_ok.mpr ⟨rfl, hl⟩, rfl⟩
  | block hb hu =>
    refine ⟨.block (unit.drop lengthWidth), ?_, rfl⟩
    rw [Slot.ofBytes_block hb]
    exact Except.bind_eq_ok.mpr ⟨_, Bytes.cutPrefixed_eq_ok.mpr ⟨hu, rfl⟩, rfl⟩
  | packet hp hs hu =>
    refine ⟨.packet unit, ?_, rfl⟩
    rw [Slot.ofBytes_packet hp hs]
    exact Except.bind_eq_ok.mpr ⟨_, Bytes.cutPrefixed_eq_ok.mpr ⟨hu, rfl⟩, rfl⟩
  | @array count elements ha hn hr he =>
    refine ⟨.array count elements.flatten, ?_, ?_⟩
    · rw [List.cons_append, Slot.ofBytes_array_cons ha, if_neg (by omega), hn]
      exact Except.bind_eq_ok.mpr ⟨_, Bytes.cutUnits_flatten he rest, rfl⟩
    · rw [Slot.reading, hn, PacketIter.toList_flatten he]
      rfl

theorem Parses.listOfBytes {flags i : Nat} {specs : List FieldSpec} {units : List Bytes}
    {readings : List Reading} (h : Parses flags i specs units readings) (rest : Bytes) :
    ∃ slots, Slot.listOfBytes flags i specs (units.flatten ++ rest) = .ok (slots, rest) ∧
      slots.map Slot.reading = readings := by
  induction h with
  | nil i => exact ⟨[], rfl, rfl⟩
  | absent bit more ih =>
    obtain ⟨slots, hs, hr⟩ := ih
    refine ⟨.absent :: slots, ?_, by rw [List.map_cons, hr]; rfl⟩
    rw [Slot.listOfBytes, bit, List.flatten_cons, List.nil_append]
    exact Except.bind_eq_ok.mpr ⟨_, hs, rfl⟩
  | present bit spells more ih =>
    obtain ⟨slots, hs, hr⟩ := ih
    obtain ⟨slot, hslot, hreading⟩ := spells.ofBytes (List.flatten _ ++ rest)
    refine ⟨slot :: slots, ?_, by rw [List.map_cons, hreading, hr]⟩
    rw [Slot.listOfBytes, if_pos bit, List.flatten_cons, List.append_assoc]
    exact Except.bind_eq_ok.mpr ⟨_, hslot, Except.bind_eq_ok.mpr ⟨_, hs, rfl⟩⟩

theorem Spells.isPresent {spec : FieldSpec} {unit : Bytes} {reading : Reading}
    (h : Spells spec unit reading) : reading.present = true := by
  cases h <;> rfl

theorem Parses.length_eq {flags i : Nat} {specs : List FieldSpec} {units : List Bytes}
    {readings : List Reading} (h : Parses flags i specs units readings) :
    readings.length = specs.length := by
  induction h with
  | nil i => rfl
  | absent bit more ih => rw [List.length_cons, List.length_cons, ih]
  | present bit spells more ih => rw [List.length_cons, List.length_cons, ih]

theorem Parses.isPresent {flags i : Nat} {specs : List FieldSpec} {units : List Bytes}
    {readings : List Reading} (h : Parses flags i specs units readings) (j : Nat) :
    (readings.getD j .absent).present = (decide (j < specs.length) && flags.testBit (i + j)) := by
  induction h generalizing j with
  | nil i => rfl
  | absent bit more ih =>
    cases j with
    | zero => simp [bit, Reading.absent]
    | succ j =>
      rw [List.getD_cons_succ, ih j, List.length_cons, Nat.add_assoc, Nat.add_comm 1 j]
      simp
  | present bit spells more ih =>
    cases j with
    | zero => simp [bit, spells.isPresent]
    | succ j =>
      rw [List.getD_cons_succ, ih j, List.length_cons, Nat.add_assoc, Nat.add_comm 1 j]
      simp

namespace Slot

variable {flags i : Nat} {specs : List FieldSpec} {bs rest : Bytes}

theorem listOfBytes_eq_ok {slots : List Slot} (h : listOfBytes flags i specs bs = .ok (slots, rest)) :
    ∃ units, Parses flags i specs units (slots.map reading) ∧ bs = units.flatten ++ rest := by
  induction specs generalizing i bs slots with
  | nil =>
    simp only [listOfBytes, Except.ok.injEq, Prod.mk.injEq] at h
    obtain ⟨rfl, rfl⟩ := h
    exact ⟨[], .nil i, rfl⟩
  | cons spec specs ih =>
    rw [listOfBytes] at h
    split at h
    · next bit =>
      obtain ⟨⟨slot, more⟩, hslot, hmore⟩ := Except.bind_eq_ok.mp h
      obtain ⟨⟨others, left⟩, hothers, hleft⟩ := Except.bind_eq_ok.mp hmore
      obtain ⟨rfl, rfl⟩ := Prod.mk.inj (Except.pure_eq_ok.mp hleft)
      obtain ⟨unit, hunit, rfl⟩ := ofBytes_eq_ok hslot
      obtain ⟨units, hunits, rfl⟩ := ih hothers
      exact ⟨unit :: units, .present bit hunit hunits, (List.append_assoc ..).symm⟩
    · next bit =>
      obtain ⟨⟨others, left⟩, hothers, hleft⟩ := Except.bind_eq_ok.mp h
      obtain ⟨rfl, rfl⟩ := Prod.mk.inj (Except.pure_eq_ok.mp hleft)
      obtain ⟨units, hunits, rfl⟩ := ih hothers
      exact ⟨[] :: units, .absent (Bool.eq_false_iff.mpr bit) hunits, rfl⟩

theorem breaks_of_listOfBytes {fault : DecodeFault}
    (h : listOfBytes flags i specs bs = .error fault) : Breaks flags i specs bs fault := by
  induction specs generalizing i bs with
  | nil => cases h
  | cons spec specs ih =>
    rw [listOfBytes] at h
    split at h
    · next bit =>
      rcases Except.bind_eq_error.mp h with h | ⟨⟨slot, more⟩, hslot, hmore⟩
      · rw [ofBytes_eq_error h]
        refine .here bit fun unit reading rest hunit hbs ↦ ?_
        obtain ⟨slot, hslot, -⟩ := hunit.ofBytes rest
        rw [← hbs, h] at hslot
        cases hslot
      · obtain ⟨unit, hunit, rfl⟩ := ofBytes_eq_ok hslot
        rcases Except.bind_eq_error.mp hmore with h | ⟨_, -, h⟩
        · exact .later bit hunit (ih h)
        · exact absurd h Except.pure_ne_error
    · next bit =>
      rcases Except.bind_eq_error.mp h with h | ⟨_, -, h⟩
      · exact .absent (Bool.eq_false_iff.mpr bit) (ih h)
      · exact absurd h Except.pure_ne_error

theorem listOfBytes_of_breaks {fault : DecodeFault} (h : Breaks flags i specs bs fault) :
    listOfBytes flags i specs bs = .error fault := by
  induction h with
  | absent bit more ih =>
    rw [listOfBytes, bit]
    exact Except.bind_eq_error.mpr (.inl ih)
  | @here i spec specs bs bit none =>
    rw [listOfBytes, if_pos bit]
    refine Except.bind_eq_error.mpr (.inl ?_)
    cases h : ofBytes spec bs with
    | error fault => rw [ofBytes_eq_error h]
    | ok found =>
      obtain ⟨unit, hunit, hbs⟩ := ofBytes_eq_ok h
      exact absurd hbs (none unit _ _ hunit)
  | later bit spells more ih =>
    obtain ⟨slot, hslot, -⟩ := spells.ofBytes _
    rw [listOfBytes, if_pos bit]
    exact Except.bind_eq_error.mpr (.inr ⟨_, hslot, Except.bind_eq_error.mpr (.inl ih)⟩)

theorem listOfBytes_eq_error {fault : DecodeFault} :
    listOfBytes flags i specs bs = .error fault ↔ Breaks flags i specs bs fault :=
  ⟨breaks_of_listOfBytes, listOfBytes_of_breaks⟩

end Slot
end GameHost
