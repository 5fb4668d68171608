import GameHost.Proofs.Wire.Flags
import Mathlib.Data.List.Induction

namespace GameHost

inductive FieldSpec.Offends (room i : ℕ) (f : FieldSpec) : SchemaFault → Prop
  | zeroCount (h : f.count = 0) : Offends room i f .zeroCount
  | noRoom (h : 0 < f.count) (hfull : room ≤ i) : Offends room i f .noRoom

/-- Some field is the first that cannot take its place, and this is why. -/
def FirstOffence (room : ℕ) (specs : List FieldSpec) (fault : SchemaFault) : Prop :=
  ∃ (i : ℕ) (f : FieldSpec), specs[i]? = some f ∧ f.Offends room i fault ∧
    ∀ j < i, ∀ g : FieldSpec, specs[j]? = some g → ∀ other, ¬ g.Offends room j other

def Definable (room : ℕ) (specs : List FieldSpec) : Prop := (∀ f ∈ specs, 0 < f.count) ∧ specs.length ≤ room

variable {room i : ℕ} {f : FieldSpec} {specs : List FieldSpec} {fault other : SchemaFault}

namespace FieldSpec.Offends

theorem unique (h : f.Offends room i fault) (h' : f.Offends room i other) : fault = other := by
  cases h with
  | zeroCount hzero =>
    cases h' with
    | zeroCount => rfl
    | noRoom hpos => exact absurd hzero (UInt16.pos_iff_ne_zero.1 hpos)
  | noRoom hpos =>
    cases h' with
    | zeroCount hzero => exact absurd hzero (UInt16.pos_iff_ne_zero.1 hpos)
    | noRoom => rfl

theorem ne_tooManyFields (h : f.Offends room i fault) : fault ≠ .tooManyFields := by
  cases h <;> nofun

end FieldSpec.Offends

theorem Definable.not_offends (h : Definable room specs) (hat : specs[i]? = some f) : ¬ f.Offends room i fault := by
  obtain ⟨hi, -⟩ := List.getElem?_eq_some_iff.1 hat
  have hpos := h.1 f (List.mem_of_getElem? hat)
  intro hoffends
  cases hoffends with
  | zeroCount hzero => exact UInt16.pos_iff_ne_zero.1 hpos hzero
  | noRoom _ hfull => exact Nat.not_le.2 hi (Nat.le_trans h.2 hfull)

namespace FirstOffence

theorem not_definable (h : FirstOffence room specs fault) : ¬ Definable room specs := by
  obtain ⟨i, f, hat, hoffends, -⟩ := h
  exact fun hdefinable ↦ hdefinable.not_offends hat hoffends

theorem unique (h : FirstOffence room specs fault) (h' : FirstOffence room specs other) : fault = other := by
  obtain ⟨i, f, hat, hoffends, hfirst⟩ := h
  obtain ⟨j, g, hat', hoffends', hfirst'⟩ := h'
  rcases Nat.lt_trichotomy i j with hlt | rfl | hlt
  · exact absurd hoffends (hfirst' i hlt f hat fault)
  · obtain rfl := Option.some.inj (hat.symm.trans hat')
    exact hoffends.unique hoffends'
  · exact absurd hoffends' (hfirst j hlt g hat' other)

theorem append (h : FirstOffence room specs fault) (more : List FieldSpec) :
    FirstOffence room (specs ++ more) fault := by
  obtain ⟨i, f, hat, hoffends, hfirst⟩ := h
  obtain ⟨hi, -⟩ := List.getElem?_eq_some_iff.1 hat
  refine ⟨i, f, by rwa [List.getElem?_append_left hi], hoffends, ?_⟩
  intro j hj g hg
  rw [List.getElem?_append_left (Nat.lt_trans hj hi)] at hg
  exact hfirst j hj g hg

theorem concat (h : Definable room specs) (hoffends : f.Offends room specs.length fault) :
    FirstOffence room (specs ++ [f]) fault := by
  refine ⟨specs.length, f, List.getElem?_concat_length, hoffends, ?_⟩
  intro j hj g hg other
  rw [List.getElem?_append_left hj] at hg
  exact h.not_offends hg

end FirstOffence

/-! ### Adding a field -/

theorem Schema.definable (s : Schema) : Definable s.flagWidth.bits s.fields := ⟨s.count_pos, s.length_le⟩

theorem Schema.add_cases (s : Schema) (f : FieldSpec) :
    (∃ fault, s.add f = .error (.schema fault) ∧ f.Offends s.flagWidth.bits s.fields.length fault) ∨
      ∃ next, s.add f = .ok next ∧ next.flagWidth = s.flagWidth ∧ next.fields = s.fields ++ [f] := by
  by_cases hcount : f.count = 0
  · exact .inl ⟨.zeroCount, by rw [add, dif_pos hcount], .zeroCount hcount⟩
  · have hpos := UInt16.pos_iff_ne_zero.2 hcount
    -- There are never as many fields as would be too many for any schema.
    have hmax : ¬ maxFields ≤ s.fields.length := by
      have hsize : s.fields.length ≤ 32 := s.size_le
      rw [maxFields]
      omega
    by_cases hfull : s.flagWidth.bits ≤ s.fields.length
    · exact .inl ⟨.noRoom, by rw [add, dif_neg hcount, if_neg hmax, dif_pos hfull], .noRoom hpos hfull⟩
    · exact .inr ⟨_, (dif_neg hcount).trans ((if_neg hmax).trans (dif_neg hfull)), rfl, rfl⟩

namespace SchemaBuilder

/-- What a builder holds that fields were added to: all of them, or the first offence. -/
inductive Holds (w : FlagWidth) (specs : List FieldSpec) (b : SchemaBuilder) : Prop
  | fields (herror : b.error = none) (hwidth : b.schema.flagWidth = w) (hfields : b.schema.fields = specs) :
      Holds w specs b
  | failed {fault : SchemaFault} (herror : b.error = some (.schema fault))
      (hfirst : FirstOffence w.bits specs fault) : Holds w specs b

variable {w : FlagWidth} {b : SchemaBuilder}

theorem Holds.field (h : b.Holds w specs) (f : FieldSpec) : (b.field f.ty f.count).Holds w (specs ++ [f]) := by
  cases h with
  | failed herror hfirst =>
    have hsame : b.field f.ty f.count = b := by rw [SchemaBuilder.field, herror]
    rw [hsame]
    exact .failed herror (hfirst.append [f])
  | fields herror hwidth hfields =>
    subst hwidth hfields
    rcases b.schema.add_cases f with ⟨fault, hadd, hoffends⟩ | ⟨next, hadd, hwidth, hnext⟩
    · have hfailed : b.field f.ty f.count = { b with error := some (.schema fault) } := by
        simp only [SchemaBuilder.field, herror, hadd]
      rw [hfailed]
      exact .failed rfl (.concat b.schema.definable hoffends)
    · have hgrown : b.field f.ty f.count = { b with schema := next } := by
        simp only [SchemaBuilder.field, herror, hadd]
      rw [hgrown]
      exact .fields herror hwidth hnext

inductive Call
  | field (ty : FieldType) (count : UInt16)
  | scalar (ty : FieldType)
  | memoryBlock
  | packet
  | packetArray (capacity : UInt16)

def Call.spec : Call → FieldSpec
  | field ty count => ⟨ty, count⟩
  | scalar ty => .scalar ty
  | memoryBlock => .memoryBlock
  | packet => .packet
  | packetArray capacity => .packetArray capacity

def perform (b : SchemaBuilder) : Call → SchemaBuilder
  | .field ty count => b.field ty count
  | .scalar ty => b.scalar ty
  | .memoryBlock => b.memoryBlock
  | .packet => b.packet
  | .packetArray capacity => b.packetArray capacity

theorem perform_eq (b : SchemaBuilder) (c : Call) : b.perform c = b.field c.spec.ty c.spec.count := by
  cases c <;> rfl

def run (w : FlagWidth) (calls : List Call) : SchemaBuilder := calls.foldl perform (ofWidth w)

theorem holds_run (w : FlagWidth) (calls : List Call) : (run w calls).Holds w (calls.map Call.spec) := by
  induction calls using List.reverseRecOn with
  | nil => exact .fields rfl rfl rfl
  | append_singleton calls c ih =>
    rw [run, List.foldl_append, List.map_append]
    show ((run w calls).perform c).Holds w _
    rw [perform_eq]
    exact ih.field c.spec

theorem ofSpecs_eq (w : FlagWidth) (specs : List FieldSpec) :
    Schema.ofSpecs w specs = (run w (specs.map fun f ↦ .field f.ty f.count)).build := by
  rw [Schema.ofSpecs, run, List.foldl_map]
  rfl

end SchemaBuilder

/-! ### What a definition comes to -/

/-- Fields of a schema of this width are accepted as they are if each can take its place, and else refused for the
first that cannot. -/
structure Schema.Defines (w : FlagWidth) (specs : List FieldSpec) (r : Except Error Schema) : Prop where
  accepts : (∃ s, r = .ok s) ↔ Definable w.bits specs
  keeps (s : Schema) : r = .ok s → s.flagWidth = w ∧ s.fields = specs
  refuses (e : Error) : r = .error e ↔ ∃ fault, e = .schema fault ∧ FirstOffence w.bits specs fault
  neverTooMany : r ≠ .error (.schema .tooManyFields)

namespace SchemaBuilder

variable {w : FlagWidth} {b : SchemaBuilder}

theorem Holds.defines (h : b.Holds w specs) : Schema.Defines w specs b.build := by
  cases h with
  | fields herror hwidth hfields =>
    have hbuild : b.build = .ok b.schema := by rw [build, herror]
    subst hwidth hfields
    rw [hbuild]
    refine ⟨⟨fun _ ↦ b.schema.definable, fun _ ↦ ⟨_, rfl⟩⟩, ?_, ?_, nofun⟩
    · intro s hs
      obtain rfl := Except.ok.inj hs
      exact ⟨rfl, rfl⟩
    · intro e
      constructor
      · nofun
      · rintro ⟨fault, -, hfirst⟩
        exact absurd b.schema.definable hfirst.not_definable
  | @failed fault herror hfirst =>
    have hbuild : b.build = .error (.schema fault) := by rw [build, herror]
    rw [hbuild]
    refine ⟨⟨?_, fun h ↦ absurd h hfirst.not_definable⟩, nofun, ?_, ?_⟩
    · rintro ⟨s, hs⟩
      cases hs
    · intro e
      constructor
      · intro he
        exact ⟨fault, (Except.error.inj he).symm, hfirst⟩
      · rintro ⟨other, rfl, hother⟩
        rw [hfirst.unique hother]
    · intro he
      obtain ⟨_, _, _, hoffends, -⟩ := hfirst
      cases he
      exact hoffends.ne_tooManyFields rfl

theorem defines_build (w : FlagWidth) (calls : List Call) :
    Schema.Defines w (calls.map Call.spec) (run w calls).build := (holds_run w calls).defines

end SchemaBuilder

namespace Schema

theorem defines_ofSpecs (w : FlagWidth) (specs : List FieldSpec) : Defines w specs (ofSpecs w specs) := by
  have hspecs : (specs.map fun f ↦ SchemaBuilder.Call.field f.ty f.count).map SchemaBuilder.Call.spec = specs := by
    rw [List.map_map]
    exact List.map_id specs
  rw [SchemaBuilder.ofSpecs_eq]
  have hdefines := SchemaBuilder.defines_build w (specs.map fun f ↦ .field f.ty f.count)
  rwa [hspecs] at hdefines

theorem Defines.error_append {w : FlagWidth} {more : List FieldSpec} {r r' : Except Error Schema} {e : Error}
    (h : Defines w specs r) (h' : Defines w (specs ++ more) r') (he : r = .error e) : r' = .error e := by
  obtain ⟨fault, rfl, hfirst⟩ := (h.refuses e).1 he
  exact (h'.refuses _).2 ⟨fault, rfl, hfirst.append more⟩

end Schema

theorem FlagWidth.ofBytes_cases (b : UInt8) :
    (b ∉ [1, 2, 4] ∧ ofBytes b = .error (.flagWidth b)) ∨
      b ∈ [1, 2, 4] ∧ ∃ w, ofBytes b = .ok w ∧ w.bytes = b.toNat ∧ w.bits = 8 * b.toNat := by
  by_cases hone : b = 1
  · subst hone
    exact .inr ⟨by decide, one, rfl, rfl, rfl⟩
  by_cases htwo : b = 2
  · subst htwo
    exact .inr ⟨by decide, two, rfl, rfl, rfl⟩
  by_cases hfour : b = 4
  · subst hfour
    exact .inr ⟨by decide, four, rfl, rfl, rfl⟩
  · have hnone : b ∉ [1, 2, 4] := by simp [hone, htwo, hfour]
    exact .inl ⟨hnone, by rw [ofBytes, if_neg hone, if_neg htwo, if_neg hfour]⟩

namespace Schema

theorem define_of_ofBytes {b : UInt8} {w : FlagWidth} (h : FlagWidth.ofBytes b = .ok w) (specs : List FieldSpec) :
    define b specs = ofSpecs w specs := by
  rw [define, h]
  rfl

theorem define_of_badWidth {b : UInt8} (h : FlagWidth.ofBytes b = .error (.flagWidth b)) (specs : List FieldSpec) :
    define b specs = .error (.flagWidth b) := by
  rw [define, h]
  rfl

theorem define_append {b : UInt8} {e : Error} (h : define b specs = .error e) (more : List FieldSpec) :
    define b (specs ++ more) = .error e := by
  rcases FlagWidth.ofBytes_cases b with ⟨-, hbad⟩ | ⟨-, w, hw, -⟩
  · rw [define_of_badWidth hbad] at h ⊢
    exact h
  · rw [define_of_ofBytes hw] at h ⊢
    exact (defines_ofSpecs w specs).error_append (defines_ofSpecs w _) h

theorem ofSpecs_fields (s : Schema) : ofSpecs s.flagWidth s.fields = .ok s := by
  have hdefines := defines_ofSpecs s.flagWidth s.fields
  obtain ⟨same, hsame⟩ := hdefines.accepts.2 s.definable
  obtain ⟨hwidth, hfields⟩ := hdefines.keeps same hsame
  rw [hsame]
  cases s
  cases same
  cases hwidth
  cases hfields
  rfl

theorem exists_define (s : Schema) : ∃ b, define b s.fields = .ok s := by
  have hw : FlagWidth.ofBytes (.ofNat s.flagWidth.bytes) = .ok s.flagWidth := by
    cases s.flagWidth <;> rfl
  exact ⟨_, (define_of_ofBytes hw _).trans s.ofSpecs_fields⟩

/-- What is accepted as the definition of a schema, what is told of the rest, and what holds of all schemas. -/
theorem schemas_defined (b : UInt8) (specs : List FieldSpec) (w : FlagWidth) (calls : List SchemaBuilder.Call)
    (s : Schema) :
    (b ∉ [1, 2, 4] → define b specs = .error (.flagWidth b)) ∧
      (b ∈ [1, 2, 4] → ∃ v : FlagWidth, v.bytes = b.toNat ∧ v.bits = 8 * b.toNat ∧ Defines v specs (define b specs)) ∧
      (∀ e more, define b specs = .error e → define b (specs ++ more) = .error e) ∧
      Defines w (calls.map SchemaBuilder.Call.spec) (SchemaBuilder.run w calls).build ∧
      (∀ e more, (SchemaBuilder.run w calls).build = .error e →
        (SchemaBuilder.run w (calls ++ more)).build = .error e) ∧
      (∃ own, define own s.fields = .ok s) ∧ s.BitsApart := by
  refine ⟨?_, ?_, fun e more h ↦ define_append h more, SchemaBuilder.defines_build w calls, ?_, s.exists_define,
    s.bitsApart⟩
  · intro hb
    rcases FlagWidth.ofBytes_cases b with ⟨-, hbad⟩ | ⟨hgood, -⟩
    · exact define_of_badWidth hbad specs
    · exact absurd hgood hb
  · intro hb
    rcases FlagWidth.ofBytes_cases b with ⟨hbad, -⟩ | ⟨-, v, hv, hbytes, hbits⟩
    · exact absurd hb hbad
    · exact ⟨v, hbytes, hbits, define_of_ofBytes hv specs ▸ defines_ofSpecs v specs⟩
  · intro e more h
    have hall := SchemaBuilder.defines_build w (calls ++ more)
    rw [List.map_append] at hall
    exact (SchemaBuilder.defines_build w calls).error_append hall h

/-- Eight fields fill a word of one byte. A ninth has no room, and a count of zero behind it is not looked at. -/
def crowded : List FieldSpec := List.replicate 9 (.scalar .uint8) ++ [⟨.uint8, 0⟩]

def full : Schema := ⟨.four, List.replicate 32 (.scalar .uint8), by decide, by decide⟩

theorem schemas_defined_crowded :
    define 3 crowded = .error (.flagWidth 3) ∧ define 1 crowded = .error (.schema .noRoom) ∧
      (SchemaBuilder.run .one [.packetArray 0, .packet]).build = .error (.schema .zeroCount) ∧
      Flags.bit? 31 = some 0x80000000 ∧ full.BitsApart := by
  obtain ⟨hwidth, -, -, -, -, -, hbits⟩ := schemas_defined 3 crowded .one [] full
  obtain ⟨-, -, hroom, -, hzero, -⟩ :=
    schemas_defined 1 (List.replicate 9 (.scalar .uint8)) .one [.packetArray 0] full
  exact ⟨hwidth (by decide), hroom _ [⟨.uint8, 0⟩] rfl, hzero _ [.packet] rfl, rfl, hbits⟩

end Schema
end GameHost
