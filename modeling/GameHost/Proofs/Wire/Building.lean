import GameHost.Proofs.Wire.Correspondence
import Mathlib.Data.List.Induction

namespace GameHost.Message

/-- One step of building a message. What is set in place and what is set in a chain are the same step. -/
inductive Edit
  | set (i : Nat) (v : FieldValue)
  | setOpt (i : Nat) (v : Option FieldValue)
  | clear (i : Nat)

namespace Edit

def index : Edit → Nat
  | set i _ | setOpt i _ | clear i => i

def value : Edit → Option FieldValue
  | set _ v => some v
  | setOpt _ v => v
  | clear _ => none

/-- A value is supplied for an index outside the schema. -/
def strays (s : Schema) (e : Edit) : Bool := e.value.isSome && decide (s.size ≤ e.index)

end Edit

def edit (m : Message) : Edit → Message
  | .set i v => m.set i v
  | .setOpt i v => m.setOpt i v
  | .clear i => m.clear i

def build (s : Schema) (edits : List Edit) : Message := edits.foldl edit (ofSchema s)

def lastValue (edits : List Edit) (i : Nat) : Option FieldValue :=
  (edits.filter (·.index = i)).getLast?.bind Edit.value

def firstStray (s : Schema) (edits : List Edit) : Option Nat := (edits.find? (·.strays s)).map Edit.index

/-- The message with these values and nothing else. -/
def holding (s : Schema) (value : Nat → Option FieldValue) : Message :=
  ⟨s, (List.range s.size).map value, none, by simp⟩

section edit

variable (m : Message) (e : Edit)

theorem edit_eq : m.edit e = m.setOpt e.index e.value := by cases e <;> rfl

theorem schema_edit : (m.edit e).schema = m.schema := by
  rw [edit_eq]
  cases e.value with
  | none => rfl
  | some v =>
    rw [setOpt, Message.set]
    split <;> rfl

/-- An edit reaches the field it is about and no other. -/
theorem values_edit : (m.edit e).values = m.values.set e.index e.value := by
  rw [edit_eq]
  cases e.value with
  | none => rfl
  | some v =>
    rw [setOpt, Message.set]
    split
    · rfl
    · next hi =>
      have hout : m.values.length ≤ e.index := by
        rw [m.length_values]
        exact Nat.le_of_not_lt hi
      exact (List.set_eq_of_length_le hout).symm

theorem badIndex_edit :
    (m.edit e).badIndex = m.badIndex.or (if e.strays m.schema then some e.index else none) := by
  rw [edit_eq, Edit.strays]
  cases e.value with
  | none => exact Option.or_none.symm
  | some v =>
    rw [setOpt, Message.set, Option.isSome_some, Bool.true_and]
    split
    · next hi =>
      rw [decide_eq_false (Nat.not_le.mpr hi), if_neg Bool.false_ne_true, Option.or_none]
      rfl
    · next hi => rw [decide_eq_true (Nat.le_of_not_lt hi), if_pos rfl]

end edit

variable {s : Schema} {edits : List Edit}

theorem lastValue_concat (edits : List Edit) (e : Edit) (i : Nat) :
    lastValue (edits ++ [e]) i = if e.index = i then e.value else lastValue edits i := by
  rw [lastValue, List.filter_append]
  by_cases hi : e.index = i
  · have hlast : [e].filter (·.index = i) = [e] := by simp [hi]
    rw [hlast, List.getLast?_concat, if_pos hi]
    rfl
  · have hlast : [e].filter (·.index = i) = [] := by simp [hi]
    rw [hlast, List.append_nil, if_neg hi, lastValue]

theorem firstStray_concat (s : Schema) (edits : List Edit) (e : Edit) : firstStray s (edits ++ [e]) =
    (firstStray s edits).or (if e.strays s then some e.index else none) := by
  rw [firstStray, List.find?_append, Option.map_or, firstStray, List.find?_singleton]
  split <;> rfl

theorem build_concat (s : Schema) (edits : List Edit) (e : Edit) :
    build s (edits ++ [e]) = (build s edits).edit e := by
  rw [build, List.foldl_append]
  rfl

theorem schema_build (s : Schema) (edits : List Edit) : (build s edits).schema = s := by
  induction edits using List.reverseRecOn with
  | nil => rfl
  | append_singleton edits e ih => rw [build_concat, schema_edit, ih]

theorem badIndex_build (s : Schema) (edits : List Edit) : (build s edits).badIndex = firstStray s edits := by
  induction edits using List.reverseRecOn with
  | nil => rfl
  | append_singleton edits e ih => rw [build_concat, badIndex_edit, ih, schema_build, firstStray_concat]

theorem values_build (s : Schema) (edits : List Edit) :
    (build s edits).values = (List.range s.size).map (lastValue edits) := by
  induction edits using List.reverseRecOn with
  | nil =>
    have hnone : lastValue [] = fun _ ↦ none := rfl
    rw [hnone, List.map_const', List.length_range]
    rfl
  | append_singleton edits e ih =>
    rw [build_concat, values_edit, ih]
    apply List.ext_getElem
    · simp
    · intro i hi hi'
      simp only [List.getElem_set, List.getElem_map, List.getElem_range, lastValue_concat]

theorem build_eq_holding (h : firstStray s edits = none) : build s edits = holding s (lastValue edits) := by
  have hschema := schema_build s edits
  have hvalues := values_build s edits
  have hbad := badIndex_build s edits
  rw [h] at hbad
  unfold holding
  cases hm : build s edits with
  | mk schema values badIndex length_values =>
    simp only [hm] at hschema hvalues hbad
    subst hschema hvalues hbad
    rfl

theorem failsWith_of_firstStray {i : Nat} (h : firstStray s edits = some i) (header : Header) :
    (build s edits).FailsWith header (.fieldOutOfRange i) := by
  have hbad : (build s edits).badIndex = some i := by rw [badIndex_build, h]
  exact failsWith_of_measure (measure_eq_error_iff.mpr (.index hbad)) header

/-- A message with a place for each index up to the largest number of fields, whatever its schema. There is no result
where a place is read or written that is not there. -/
structure Rack where
  schema : Schema
  places : List (Option FieldValue)
  badIndex : Option Nat

namespace Rack

def ofSchema (s : Schema) : Rack := ⟨s, List.replicate Schema.maxFields none, none⟩

def set? (r : Rack) (i : Nat) (v : FieldValue) : Option Rack :=
  if i < r.schema.size then
    if i < r.places.length then some { r with places := r.places.set i (some v) } else none
  else some { r with badIndex := r.badIndex.or (some i) }

def clear (r : Rack) (i : Nat) : Rack :=
  if i < r.places.length then { r with places := r.places.set i none } else r

def edit? (r : Rack) : Edit → Option Rack
  | .set i v | .setOpt i (some v) => r.set? i v
  | .setOpt i none | .clear i => some (r.clear i)

def build? (s : Schema) (edits : List Edit) : Option Rack := edits.foldlM edit? (ofSchema s)

def entries? (r : Rack) : Option (List (FieldSpec × Option FieldValue)) :=
  r.schema.fields.zipIdx.mapM fun (spec, i) ↦ r.places[i]?.map (spec, ·)

/-- The places of the fields hold the values of the message, and all others are empty. -/
structure Holds (r : Rack) (m : Message) : Prop where
  schema : r.schema = m.schema
  places : r.places = m.values ++ List.replicate (Schema.maxFields - m.schema.size) none
  badIndex : r.badIndex = m.badIndex

end Rack

theorem size_le_maxFields (s : Schema) : s.size ≤ Schema.maxFields := by
  refine Nat.le_trans s.length_le ?_
  cases s.flagWidth <;> decide

namespace Rack

variable {r : Rack} {m : Message}

theorem Holds.length_places (h : r.Holds m) : r.places.length = Schema.maxFields := by
  have hroom := size_le_maxFields m.schema
  rw [h.places, List.length_append, m.length_values, List.length_replicate]
  omega

theorem holds_ofSchema (s : Schema) : (ofSchema s).Holds (Message.ofSchema s) where
  schema := rfl
  places := by
    have hroom : s.size + (Schema.maxFields - s.size) = Schema.maxFields :=
      Nat.add_sub_of_le (size_le_maxFields s)
    have hsplit : List.replicate s.size none ++ List.replicate (Schema.maxFields - s.size) none =
        List.replicate (s.size + (Schema.maxFields - s.size)) (none : Option FieldValue) :=
      List.replicate_append_replicate
    rw [hroom] at hsplit
    exact hsplit.symm
  badIndex := rfl

theorem set_append_replicate {values : List (Option FieldValue)} {i : Nat} {v : Option FieldValue}
    (h : i < values.length ∨ v = none) (k : Nat) :
    (values ++ List.replicate k none).set i v = values.set i v ++ List.replicate k none := by
  rw [List.set_append]
  split
  · rfl
  · next hi =>
    obtain rfl := h.resolve_left hi
    rw [List.set_replicate_self, List.set_eq_of_length_le (Nat.le_of_not_lt hi)]

theorem Holds.set (h : r.Holds m) (i : Nat) (v : FieldValue) :
    ∃ next, r.set? i v = some next ∧ next.Holds (m.set i v) := by
  have hlength := h.length_places
  have hroom := size_le_maxFields m.schema
  rw [set?, Message.set, h.schema]
  by_cases hi : i < m.schema.size
  · have hvalues : i < m.values.length := by
      rw [m.length_values]
      exact hi
    rw [if_pos hi, if_pos hi, if_pos (by omega)]
    refine ⟨_, rfl, rfl, ?_, h.badIndex⟩
    rw [h.places]
    exact set_append_replicate (.inl hvalues) _
  · rw [if_neg hi, if_neg hi, h.badIndex]
    exact ⟨_, rfl, rfl, h.places, rfl⟩

theorem Holds.clear (h : r.Holds m) (i : Nat) : (r.clear i).Holds (m.clear i) := by
  rw [Rack.clear]
  split
  · refine ⟨h.schema, ?_, h.badIndex⟩
    rw [h.places]
    exact set_append_replicate (.inr rfl) _
  · next hi =>
    have hout : m.values.length ≤ i := by
      have hroom := size_le_maxFields m.schema
      rw [h.length_places] at hi
      rw [m.length_values]
      omega
    refine ⟨h.schema, ?_, h.badIndex⟩
    rw [h.places]
    exact congrArg (· ++ _) (List.set_eq_of_length_le hout).symm

theorem Holds.edit (h : r.Holds m) (e : Edit) : ∃ next, r.edit? e = some next ∧ next.Holds (m.edit e) := by
  cases e with
  | set i v => exact h.set i v
  | setOpt i v =>
    cases v with
    | none => exact ⟨_, rfl, h.clear i⟩
    | some v => exact h.set i v
  | clear i => exact ⟨_, rfl, h.clear i⟩

theorem exists_holds_build (s : Schema) (edits : List Edit) :
    ∃ rack, build? s edits = some rack ∧ rack.Holds (build s edits) := by
  induction edits using List.reverseRecOn with
  | nil => exact ⟨_, rfl, holds_ofSchema s⟩
  | append_singleton edits e ih =>
    obtain ⟨rack, hrack, hholds⟩ := ih
    obtain ⟨next, hnext, hholds⟩ := hholds.edit e
    refine ⟨next, ?_, build_concat s edits e ▸ hholds⟩
    rw [build?] at hrack
    rw [build?, List.foldlM_append, hrack, Option.bind_eq_bind, Option.bind_some, List.foldlM_cons, hnext]
    rfl

theorem mapM_places (places : List (Option FieldValue)) (fields : List FieldSpec) (k : Nat)
    (h : k + fields.length ≤ places.length) :
    (fields.zipIdx k).mapM (fun x ↦ places[x.2]?.map (x.1, ·)) = some (fields.zip (places.drop k)) := by
  induction fields generalizing k with
  | nil => rfl
  | cons spec fields ih =>
    rw [List.length_cons] at h
    have hk : k < places.length := by omega
    rw [List.zipIdx_cons, List.mapM_cons, ih (k + 1) (by omega), List.drop_eq_getElem_cons hk,
      List.getElem?_eq_getElem hk]
    rfl

theorem Holds.entries (h : r.Holds m) : r.entries? = some m.entries := by
  have hlength := h.length_places
  have hroom := size_le_maxFields m.schema
  have hfields : m.schema.fields.length = m.values.length := m.length_values.symm
  have hplaces := mapM_places r.places m.schema.fields 0 (by rw [Nat.zero_add, hlength]; exact hroom)
  rw [List.drop_zero] at hplaces
  rw [entries?, h.schema, hplaces, h.places, Message.entries, ← List.append_nil m.schema.fields,
    List.zip_append hfields, List.zip_nil_left, List.append_nil, List.append_nil]

end Rack

/-- Whatever a message was built by, it is the message that holds what the last edit left in each field; if a value
was supplied for an index outside the schema, all that is asked of it fails with the first such index. An edit leaves
all fields alone but its own. All this takes no more places than there are. -/
theorem build_lastWriterWins (s : Schema) (edits : List Edit) :
    (firstStray s edits = none → build s edits = holding s (lastValue edits)) ∧
    (∀ i, firstStray s edits = some i → ∀ h, (build s edits).FailsWith h (.fieldOutOfRange i)) ∧
    (build s edits).values = (List.range s.size).map (lastValue edits) ∧
    (∀ e i, e.index ≠ i → (build s (edits ++ [e])).values[i]? = (build s edits).values[i]?) ∧
    ∃ rack, Rack.build? s edits = some rack ∧ rack.Holds (build s edits) ∧
      rack.entries? = some (build s edits).entries := by
  obtain ⟨rack, hrack, hholds⟩ := Rack.exists_holds_build s edits
  refine ⟨build_eq_holding, fun _ ↦ failsWith_of_firstStray, values_build s edits, ?_,
    rack, hrack, hholds, hholds.entries⟩
  intro e i hi
  rw [build_concat, values_edit, List.getElem?_set_ne hi]

/-- The last of two values for field 0 stays when field 1 is emptied. Then a value for index 9 spoils the message, and
neither emptying that index nor the value for index 70 changes anything. -/
theorem build_lastWriterWins_spoilt :
    let edits : List Edit := [.set 0 (.scalar (1 : UInt16)), .setOpt 1 (some (.block [7])),
      .set 0 (.scalar (258 : UInt16)), .clear 1]
    let spoilt := edits ++ [.set 9 (.raw []), .clear 9, .set 70 (.raw [])]
    firstStray .sample edits = none ∧ build .sample edits = holding .sample (lastValue edits) ∧
    lastValue edits 0 = some (.inline [2, 1]) ∧ lastValue edits 1 = none ∧
    (build .sample (edits ++ [.clear 1])).values[0]? = (build .sample edits).values[0]? ∧
    firstStray .sample spoilt = some 9 ∧ (build .sample spoilt).FailsWith .blank (.fieldOutOfRange 9) := by
  intro edits spoilt
  have hnone : firstStray .sample edits = none := by decide
  have hstray : firstStray .sample spoilt = some 9 := by decide
  exact ⟨hnone, (build_lastWriterWins _ _).1 hnone, by decide, by decide,
    (build_lastWriterWins _ _).2.2.2.1 (.clear 1) 0 (by decide), hstray,
    (build_lastWriterWins _ _).2.1 9 hstray .blank⟩

end GameHost.Message
