import GameHost.Proofs.Wire.Bounds

namespace GameHost

open Guarded (within)

namespace Schema

variable (s : Schema) (checks : List (Bool × DecodeFault)) (flags : Nat) (region : Bytes)

/-- The envelope holds and the units of the fields stand one after the other at the front of the
region. Bytes after the last unit and bits past the last field do not matter. -/
structure Accepts (units : List Bytes) (readings : List Reading) : Prop where
  holds : ∀ check ∈ checks, check.1 = true
  parses : Parses flags 0 s.fields units readings
  region : ∃ slack, region = units.flatten ++ slack

/-- The first check that fails, on the envelope or then on the fields in their order. -/
inductive Refuses (fault : DecodeFault) : Prop
  | envelope (fails : firstFault checks = some fault)
  | field (holds : ∀ check ∈ checks, check.1 = true) (breaks : Breaks flags 0 s.fields region fault)

/-- The view tells of each field what was parsed for it. -/
structure Shows (d : View) (readings : List Reading) : Prop where
  word : d.flags = flags
  reading (i : Nat) : d.reading i = readings.getD i .absent
  isPresent (i : Nat) : d.isPresent i ↔ i < s.size ∧ flags.testBit i
  get (α : Type) [Scalar α] (i : Nat) : d.get i α = (readings.getD i .absent).fixed.bind fun bs ↦
    if bs.length = Scalar.width α then some (Scalar.ofBytes bs) else none
  charsText (i : Nat) : d.charsText i = (readings.getD i .absent).chars.bind fun bs ↦
    Bytes.text? (bs.takeWhile (· ≠ 0))

/-- A decoder that has this outcome follows the grammar of the fields exactly, and stays in bounds. -/
structure Exact (outcome : Except Error View) (guarded : Guarded Table) : Prop where
  accepts : (∃ d, outcome = .ok d) ↔ ∃ units readings, s.Accepts checks flags region units readings
  shows (d : View) (units : List Bytes) (readings : List Reading) : outcome = .ok d →
    s.Accepts checks flags region units readings → s.Shows flags d readings
  refuses (e : Error) :
    outcome = .error e ↔ ∃ fault, e = .decode fault ∧ s.Refuses checks flags region fault
  bounds : ∃ result : Except DecodeFault View,
    outcome = result.mapError .decode ∧ guarded = within (result.map View.table)
  accessors (d : View) : outcome = .ok d → d.Bounded

variable {s checks flags region} {header : Option Header} {units : List Bytes}
  {readings : List Reading}

theorem Accepts.viewOf (h : s.Accepts checks flags region units readings)
    (header : Option Header) :
    ∃ slots, s.viewOf header flags region = .ok ⟨header, flags, slots⟩ ∧
      slots.map Slot.reading = readings := by
  obtain ⟨slack, rfl⟩ := h.region
  obtain ⟨slots, hslots, hreadings⟩ := h.parses.listOfBytes slack
  exact ⟨slots, Except.bind_eq_ok.mpr ⟨_, hslots, rfl⟩, hreadings⟩

theorem accepts_of_viewOf {d : View} (holds : ∀ check ∈ checks, check.1 = true)
    (h : s.viewOf header flags region = .ok d) :
    ∃ units, s.Accepts checks flags region units (d.slots.map Slot.reading) := by
  obtain ⟨⟨slots, slack⟩, hslots, hview⟩ := Except.bind_eq_ok.mp h
  obtain rfl := Except.pure_eq_ok.mp hview
  obtain ⟨units, hparses, hregion⟩ := Slot.listOfBytes_eq_ok hslots
  exact ⟨units, holds, hparses, slack, hregion⟩

theorem viewOf_eq_error {fault : DecodeFault} :
    s.viewOf header flags region = .error fault ↔ Breaks flags 0 s.fields region fault := by
  rw [← Slot.listOfBytes_eq_error]
  constructor
  · intro h
    rcases Except.bind_eq_error.mp h with h | ⟨_, -, h⟩
    · exact h
    · exact absurd h Except.pure_ne_error
  · intro h
    exact Except.bind_eq_error.mpr (.inl h)

theorem shows_of_parses {d : View} (hflags : d.flags = flags)
    (h : Parses flags 0 s.fields units (d.slots.map Slot.reading)) :
    s.Shows flags d (d.slots.map Slot.reading) where
  word := hflags
  reading := d.reading_getD
  isPresent i := by
    have hpresent : d.isPresent i = (d.reading i).present := rfl
    rw [hpresent, d.reading_getD, h.isPresent i, Nat.zero_add, Bool.and_eq_true, decide_eq_true_eq]
    rfl
  get α _ i := by rw [d.get_eq, d.reading_getD]
  charsText i := by
    have hchars : d.chars i = (d.reading i).chars := rfl
    rw [View.charsText, hchars, d.reading_getD]

/-- Checks followed by the reader of the fields are exact. -/
theorem exact_of_checked {result : Except DecodeFault View} {guarded : Guarded Table}
    (hresult : result = checked checks (s.viewOf header flags region))
    (hguarded : guarded = within (result.map View.table)) :
    s.Exact checks flags region (result.mapError .decode) guarded where
  accepts := by
    constructor
    · rintro ⟨d, hd⟩
      obtain ⟨holds, hview⟩ := checked_eq_ok.mp (hresult ▸ Except.mapError_eq_ok.mp hd)
      obtain ⟨units, haccepts⟩ := accepts_of_viewOf holds hview
      exact ⟨units, _, haccepts⟩
    · rintro ⟨units, readings, h⟩
      obtain ⟨slots, hview, -⟩ := h.viewOf header
      exact ⟨_, Except.mapError_eq_ok.mpr (hresult ▸ checked_eq_ok.mpr ⟨h.holds, hview⟩)⟩
  shows d units readings hd h := by
    obtain ⟨-, hview⟩ := checked_eq_ok.mp (hresult ▸ Except.mapError_eq_ok.mp hd)
    obtain ⟨slots, hslots, rfl⟩ := h.viewOf header
    rw [hslots, Except.ok.injEq] at hview
    subst hview
    exact shows_of_parses rfl h.parses
  refuses e := by
    rw [Except.mapError_eq_error, hresult]
    refine exists_congr fun fault ↦ ?_
    rw [checked_eq_error, viewOf_eq_error, and_comm, eq_comm]
    refine and_congr_right fun _ ↦ ⟨?_, ?_⟩
    · rintro (fails | ⟨holds, breaks⟩)
      · exact .envelope fails
      · exact .field holds breaks
    · rintro (fails | ⟨holds, breaks⟩)
      · exact .inl fails
      · exact .inr ⟨holds, breaks⟩
  bounds := ⟨result, rfl, hguarded⟩
  accessors d hd := by
    obtain ⟨holds, hview⟩ := checked_eq_ok.mp (hresult ▸ Except.mapError_eq_ok.mp hd)
    obtain ⟨units, haccepts⟩ := accepts_of_viewOf holds hview
    have hlen := haccepts.parses.length_eq
    rw [List.length_map] at hlen
    exact View.bounded (hlen ▸ Nat.le_trans s.size_le (by decide))

theorem header_of_checked {d : View}
    (h : (checked checks (s.viewOf header flags region)).mapError Error.decode = .ok d) :
    (∀ check ∈ checks, check.1 = true) ∧ d.header = header := by
  obtain ⟨holds, hview⟩ := checked_eq_ok.mp (Except.mapError_eq_ok.mp h)
  obtain ⟨found, -, hfound⟩ := Except.bind_eq_ok.mp hview
  obtain rfl := Except.pure_eq_ok.mp hfound
  exact ⟨holds, rfl⟩

end Schema
/-- A decoder accepts what the grammar of its form derives and nothing else, shows the parse, refuses
for the first check that fails, and never reaches out of bounds. -/
theorem decoders_exact (s : Schema) (data : Bytes) :
    (s.Exact (s.topChecks data) (s.topFlags data) (s.topRegion data) (s.decodeTop data)
        (s.readTop data) ∧
      ∀ d, s.decodeTop data = .ok d → ∃ h, d.header = some h ∧
        data.take headerLen = h.toBytes (Header.declaredLen data)) ∧
    (s.Exact (s.nestedChecks data) (s.nestedFlags data) (s.nestedRegion data) (s.decodeNested data)
        (s.readNested data) ∧
      ∀ d, s.decodeNested data = .ok d → d.header = none) := by
  refine ⟨⟨?_, ?_⟩, ?_, ?_⟩
  · exact Schema.exact_of_checked (s.decodeTop?_eq data) (s.readTop_eq data)
  · intro d hd
    rw [Schema.decodeTop, Schema.decodeTop?_eq] at hd
    obtain ⟨holds, hheader⟩ := Schema.header_of_checked hd
    simp only [Schema.topChecks, List.forall_mem_cons, decide_eq_true_eq] at holds
    obtain ⟨hlen, hfront, -⟩ := holds
    refine ⟨_, hheader, (Header.toBytes_ofBytes ?_ hfront).symm⟩
    rw [Schema.topOverhead] at hlen
    omega
  · exact Schema.exact_of_checked (s.decodeNested?_eq data) (s.readNested_eq data)
  · intro d hd
    rw [Schema.decodeNested, Schema.decodeNested?_eq] at hd
    exact (Schema.header_of_checked hd).2

def loose (rear : UInt8) : Bytes :=
  [0xD6, 21, 0, 0, 0, 0, 0, 0, 0, 0, 0, 0, 0, 0x85, 2, 1, 1, 0, 0, 9, rear]

theorem decoders_exact_loose :
    (∃ d, Schema.sample.decodeTop (loose rearGuard) = .ok d ∧ d.reading 2 = .ofPackets [[0, 0]] ∧
      ¬ d.isPresent 7) ∧
    Schema.sample.decodeTop (loose 0) = .error (.decode .badGuard) := by
  obtain ⟨⟨hexact, -⟩, -⟩ := decoders_exact Schema.sample (loose rearGuard)
  obtain ⟨⟨hrefused, -⟩, -⟩ := decoders_exact Schema.sample (loose 0)
  have harray : Spells ⟨.packet, 2⟩ [1, 0, 0] (.ofPackets [[0, 0]]) :=
    @Spells.array ⟨.packet, 2⟩ 1 [[0, 0]] rfl rfl (by decide) (by decide)
  have haccepts : Schema.sample.Accepts (Schema.sample.topChecks (loose rearGuard))
      (Schema.sample.topFlags (loose rearGuard)) (Schema.sample.topRegion (loose rearGuard))
      [[2, 1], [], [1, 0, 0]] [.ofFixed .uint16 [2, 1], .absent, .ofPackets [[0, 0]]] :=
    ⟨by decide, .present rfl (.fixed rfl rfl) (.absent rfl (.present rfl harray (.nil 3))), [9], rfl⟩
  obtain ⟨d, hd⟩ := hexact.accepts.mpr ⟨_, _, haccepts⟩
  have hshows := hexact.shows d _ _ hd haccepts
  refine ⟨⟨d, hd, hshows.reading 2, ?_⟩, (hrefused.refuses _).mpr ⟨_, rfl, .envelope rfl⟩⟩
  rw [hshows.isPresent]
  decide

end GameHost
