import GameHost.Proofs.Wire.Acceptance
import GameHost.Proofs.Wire.Form

namespace GameHost

def Reading.slices (r : Reading) : List Bytes :=
  r.fixed.toList ++ r.chars.toList ++ r.block.toList ++ r.packet.toList ++ r.packets

/-- The slice `bs` of `data` starts at `start` or later and ends at `stop` or earlier. -/
def Bytes.LiesIn (data : Bytes) (start stop : Nat) (bs : Bytes) : Prop :=
  ∃ a, start ≤ a ∧ a + bs.length ≤ stop ∧ data.slice? a (a + bs.length) = some bs

/-- What was decoded from `data` is decided by its first `stop` bytes, no fewer. Its fields have their
slices from `start` on and before `limit`, each in its own part and in their order. -/
structure Extent (decode : Bytes → Except Error View) (data : Bytes) (d : View)
    (start limit stop : Nat) : Prop where
  cut (k : Nat) : k < stop → decode (data.take k) = .error (.decode .truncated)
  more (rest : Bytes) : decode (data.take stop ++ rest) = .ok d
  parts : ∃ bounds : Nat → Nat, bounds 0 = start ∧
    (∀ i, bounds i ≤ bounds (i + 1) ∧ bounds i ≤ limit) ∧
    ∀ i, ∀ bs ∈ (d.reading i).slices, data.LiesIn (bounds i) (bounds (i + 1)) bs

section slices

variable {spec : FieldSpec} {unit bs : Bytes} {reading : Reading} {flags i : Nat}
  {specs : List FieldSpec} {units : List Bytes} {readings : List Reading}

theorem Spells.infix_of_mem_slices (h : Spells spec unit reading) (hbs : bs ∈ reading.slices) :
    bs <:+: unit := by
  cases h with
  | fixed hf hl =>
    have : bs = unit := by
      by_cases hc : spec.ty = .char
      · simpa [Reading.slices, Reading.ofFixed, hc] using hbs
      · simpa [Reading.slices, Reading.ofFixed, hc] using hbs
    exact this ▸ List.infix_refl _
  | block hb hu =>
    have : bs = unit.drop lengthWidth := by simpa [Reading.slices, Reading.ofBlock] using hbs
    exact this ▸ (List.drop_suffix ..).isInfix
  | packet hp hs hu =>
    have : bs = unit := by simpa [Reading.slices, Reading.ofPacket] using hbs
    exact this ▸ List.infix_refl _
  | array ha hn hr he =>
    have hmem := by simpa [Reading.slices, Reading.ofPackets] using hbs
    exact (List.infix_of_mem_flatten hmem).trans (List.suffix_cons ..).isInfix

theorem Parses.infix_of_mem_slices (h : Parses flags i specs units readings) (j : Nat)
    (hbs : bs ∈ (readings.getD j .absent).slices) : bs <:+: units.getD j [] := by
  induction h generalizing j with
  | nil i => simp [Reading.slices, Reading.absent] at hbs
  | absent bit more ih =>
    cases j with
    | zero => simp [Reading.slices, Reading.absent] at hbs
    | succ j => exact ih j hbs
  | present bit spells more ih =>
    cases j with
    | zero => exact spells.infix_of_mem_slices hbs
    | succ j => exact ih j hbs

def offset (units : List Bytes) (j : Nat) : Nat := (units.take j).flatten.length

theorem offset_succ (units : List Bytes) (j : Nat) :
    offset units (j + 1) = offset units j + (units.getD j []).length := by
  rw [offset, offset, List.take_add_one, List.flatten_append, List.length_append,
    List.getD_eq_getElem?_getD]
  cases units[j]? <;> simp

theorem flatten_split (units : List Bytes) (j : Nat) : units.flatten =
    (units.take j).flatten ++ (units.getD j [] ++ (units.drop (j + 1)).flatten) := by
  have hsplit : units.flatten = (units.take j).flatten ++ (units.drop j).flatten := by
    rw [← List.flatten_append, List.take_append_drop]
  rw [hsplit, List.getD_eq_getElem?_getD]
  by_cases hj : j < units.length
  · rw [List.drop_eq_getElem_cons hj, List.flatten_cons, List.getElem?_eq_getElem hj, Option.getD_some]
  · have hlen := Nat.le_of_not_lt hj
    rw [List.getElem?_eq_none hlen, List.drop_of_length_le hlen, List.drop_of_length_le (by omega)]
    rfl

theorem offset_le (units : List Bytes) (j : Nat) : offset units j ≤ units.flatten.length := by
  rw [flatten_split units j, List.length_append]
  exact Nat.le_add_right ..

theorem liesIn_of_infix {data slack : Bytes} {start limit : Nat} (hlimit : limit ≤ data.length)
    (hstart : start ≤ limit) (hregion : (data.take limit).drop start = units.flatten ++ slack) {j : Nat}
    (hbs : bs <:+: units.getD j []) :
    data.LiesIn (start + offset units j) (start + offset units (j + 1)) bs := by
  obtain ⟨p, q, hunit⟩ := hbs
  obtain ⟨front, back, hfront, rfl⟩ : ∃ front back : Bytes,
      front.length = start + offset units j + p.length ∧ data = front ++ (bs ++ back) := by
    refine ⟨data.take start ++ (units.take j).flatten ++ p,
      q ++ (units.drop (j + 1)).flatten ++ slack ++ data.drop limit, ?_, ?_⟩
    · rw [List.length_append, List.length_append, List.length_take, Nat.min_eq_left (by omega), offset]
    · calc data = (data.take limit).take start ++ (data.take limit).drop start ++ data.drop limit := by
            rw [List.take_append_drop, List.take_append_drop]
        _ = _ := by
            rw [hregion, flatten_split units j, ← hunit, List.take_take, Nat.min_eq_left hstart]
            simp only [List.append_assoc]
  have hlen := congrArg List.length hunit
  rw [List.length_append, List.length_append] at hlen
  refine ⟨front.length, by omega, ?_, Bytes.slice?_append front bs back⟩
  rw [offset_succ]
  omega

/-- The slices of a view that shows what was parsed between `start` and `limit` lie there. -/
theorem parts_of_accepts {s : Schema} {checks : List (Bool × DecodeFault)} {data : Bytes} {d : View}
    {start limit : Nat} (hlimit : limit ≤ data.length) (hstart : start ≤ limit)
    (h : s.Accepts checks flags ((data.take limit).drop start) units readings)
    (hshows : s.Shows flags d readings) : ∃ bounds : Nat → Nat, bounds 0 = start ∧
      (∀ i, bounds i ≤ bounds (i + 1) ∧ bounds i ≤ limit) ∧
      ∀ i, ∀ bs ∈ (d.reading i).slices, data.LiesIn (bounds i) (bounds (i + 1)) bs := by
  obtain ⟨slack, hregion⟩ := h.region
  have hlen := congrArg List.length hregion
  rw [List.length_drop, List.length_take_of_le hlimit, List.length_append] at hlen
  refine ⟨fun i ↦ start + offset units i, rfl, ?_, ?_⟩
  · intro i
    have hle := offset_le units i
    have hsucc := offset_succ units i
    dsimp only
    omega
  · intro i bs hbs
    rw [hshows.reading] at hbs
    exact liesIn_of_infix hlimit hstart hregion (h.parses.infix_of_mem_slices i hbs)

end slices

namespace Header

theorem declaredLen_take {data : Bytes} {k : Nat} (h : headerLen ≤ k) :
    declaredLen (data.take k) = declaredLen data := by
  have hlen : 13 ≤ k := h
  rw [declaredLen, declaredLen, List.drop_take, List.take_take, Nat.min_eq_left (by omega)]

theorem declaredLen_le (data : Bytes) : declaredLen data ≤ maxPacketSize :=
  Nat.le_of_lt_succ (Bytes.ofLE_take_lt 2 (data.drop 1))

end Header

namespace Schema

variable {s : Schema} {data : Bytes} {k : Nat}

theorem decodeTop?_take (h : ∀ check ∈ s.topChecks data, check.1 = true)
    (hk : k < Header.declaredLen data) : s.decodeTop? (data.take k) = .error .truncated := by
  obtain ⟨-, hfront, hmin, hlen, -⟩ := (s.topChecks_hold data).mp h
  have hover : s.topOverhead = headerLen + s.flagWidth.bytes := rfl
  have hcut : (data.take k).length = k := List.length_take_of_le (by omega)
  rw [decodeTop?_eq]
  simp only [topChecks, checked_cons, decide_eq_true_eq, hcut]
  by_cases hk' : s.topOverhead + 1 ≤ k
  · have hhead : (data.take k).head? = some frontGuard := by
      rw [List.head?_take, if_neg (by omega), hfront]
    rw [if_pos hk', if_pos hhead, Header.declaredLen_take (by omega), if_pos hmin, if_neg (by omega)]
  · rw [if_neg hk']

theorem decodeNested?_take (h : ∀ check ∈ s.nestedChecks data, check.1 = true)
    (hk : k < lengthWidth + nestedLen data) : s.decodeNested? (data.take k) = .error .truncated := by
  obtain ⟨-, hlen, -⟩ := (s.nestedChecks_hold data).mp h
  have hcut : (data.take k).length = k := List.length_take_of_le (by omega)
  rw [decodeNested?_eq]
  simp only [nestedChecks, checked_cons, decide_eq_true_eq, hcut]
  by_cases hk' : lengthWidth ≤ k
  · have hnested : nestedLen (data.take k) = nestedLen data := by
      rw [nestedLen, nestedLen, List.take_take, Nat.min_eq_left hk']
    rw [if_pos hk', hnested, if_neg (by omega)]
  · rw [if_neg hk']

theorem decodeTop?_take_append (h : ∀ check ∈ s.topChecks data, check.1 = true) (rest : Bytes) :
    s.decodeTop? (data.take (Header.declaredLen data) ++ rest) = s.decodeTop? data := by
  have hsize : s.topOverhead + (s.topRegion data).length + 1 ≤ maxPacketSize :=
    length_topRegion h ▸ Header.declaredLen_le data
  have hword : s.topFlags data < Bytes.limit s.flagWidth.bytes := Bytes.ofLE_take_lt ..
  rw [take_declaredLen h, decodeTop?_topForm hword hsize, decodeTop?_eq, checked,
    firstFault_eq_none.mpr h]

theorem decodeNested?_take_append (h : ∀ check ∈ s.nestedChecks data, check.1 = true) (rest : Bytes) :
    s.decodeNested? (data.take (lengthWidth + nestedLen data) ++ rest) = s.decodeNested? data := by
  have hsize : s.flagWidth.bytes + (s.nestedRegion data).length ≤ maxPacketSize :=
    length_nestedRegion h ▸ Nat.le_of_lt_succ (Bytes.ofLE_take_lt lengthWidth data)
  have hword : s.nestedFlags data < Bytes.limit s.flagWidth.bytes := Bytes.ofLE_take_lt ..
  rw [take_nestedLen h, decodeNested?_nestedForm hword hsize, decodeNested?_eq, checked,
    firstFault_eq_none.mpr h]

theorem extent_of_decodeTop {d : View} (h : s.decodeTop data = .ok d) : Extent s.decodeTop data d
    s.topOverhead (Header.declaredLen data - 1) (Header.declaredLen data) := by
  have hexact := exact_of_checked (s.decodeTop?_eq data) (s.readTop_eq data)
  obtain ⟨units, readings, haccepts⟩ := hexact.accepts.mp ⟨d, h⟩
  obtain ⟨-, -, hmin, hlen, -⟩ := (s.topChecks_hold data).mp haccepts.holds
  refine ⟨?_, ?_, ?_⟩
  · intro k hk
    rw [decodeTop, decodeTop?_take haccepts.holds hk]
    rfl
  · intro rest
    rw [decodeTop, decodeTop?_take_append haccepts.holds]
    exact h
  · exact parts_of_accepts (by omega) (by omega) haccepts (hexact.shows d _ _ h haccepts)

theorem extent_of_decodeNested {d : View} (h : s.decodeNested data = .ok d) :
    Extent s.decodeNested data d s.nestedOverhead (lengthWidth + nestedLen data)
      (lengthWidth + nestedLen data) := by
  have hexact := exact_of_checked (s.decodeNested?_eq data) (s.readNested_eq data)
  obtain ⟨units, readings, haccepts⟩ := hexact.accepts.mp ⟨d, h⟩
  obtain ⟨-, hend, hmin⟩ := (s.nestedChecks_hold data).mp haccepts.holds
  have hover : s.nestedOverhead = lengthWidth + s.flagWidth.bytes := rfl
  refine ⟨?_, ?_, ?_⟩
  · intro k hk
    rw [decodeNested, decodeNested?_take haccepts.holds hk]
    rfl
  · intro rest
    rw [decodeNested, decodeNested?_take_append haccepts.holds]
    exact h
  · exact parts_of_accepts hend (by omega) haccepts (hexact.shows d _ _ h haccepts)

end Schema

/-- An accepted message ends where its length says: it is decided by the bytes up to there and by no
fewer, and all that is shown of its fields lies between its flag word and its end. -/
theorem extent_of_decode (s : Schema) (data : Bytes) (d : View) :
    (s.decodeTop data = .ok d → Extent s.decodeTop data d s.topOverhead (Header.declaredLen data - 1)
      (Header.declaredLen data)) ∧
    (s.decodeNested data = .ok d → Extent s.decodeNested data d s.nestedOverhead
      (lengthWidth + Schema.nestedLen data) (lengthWidth + Schema.nestedLen data)) :=
  ⟨Schema.extent_of_decodeTop, Schema.extent_of_decodeNested⟩

theorem extent_of_decode_loose :
    (∃ d, Schema.sample.decodeTop (loose rearGuard) = .ok d ∧
      Extent Schema.sample.decodeTop (loose rearGuard) d 14 20 21) ∧
    (∃ d, Schema.sample.decodeNested [3, 0, 2, 0, 0, 7] = .ok d ∧
      Extent Schema.sample.decodeNested [3, 0, 2, 0, 0, 7] d 3 5 5) := by
  have htop : Schema.sample.decodeTop (loose rearGuard) =
      .ok ⟨some .blank, 0x85, [.fixed .uint16 [2, 1], .absent, .array 1 [0, 0]]⟩ := rfl
  have hnested : Schema.sample.decodeNested [3, 0, 2, 0, 0, 7] =
      .ok ⟨none, 2, [.absent, .block [], .absent]⟩ := rfl
  exact ⟨⟨_, htop, (extent_of_decode _ _ _).1 htop⟩, ⟨_, hnested, (extent_of_decode _ _ _).2 hnested⟩⟩

end GameHost
