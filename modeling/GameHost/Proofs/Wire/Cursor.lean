import GameHost.Proofs.Access
import GameHost.Proofs.Wire.Grammar

/-!
Readers that check every index and every slice.

In `Guarded` an access out of bounds leaves no outcome at all, not even a fault. A `Cursor` walks over a
message where it lies in its buffer; `Cursor.slot_facing` and `Cursor.walk_facing` say that it finds
what `Slot.ofBytes` and `Slot.listOfBytes` find in the bytes that are left, with every access in bounds.
-/

namespace GameHost

abbrev Guarded := ExceptT DecodeFault Option

namespace Guarded

variable {α β γ δ : Type}

def access (found : Option α) : Guarded α := ExceptT.mk (found.map .ok)

def within (outcome : Except DecodeFault α) : Guarded α := ExceptT.mk (some outcome)

theorem access_bind {found : Option α} {a : α} (h : found = some a) (k : α → Guarded β) :
    (access found >>= k) = k a := by
  rw [h]
  rfl

theorem pure_eq (a : α) : (pure a : Guarded α) = within (.ok a) := rfl

theorem within_bind (outcome : Except DecodeFault α) (k : α → Guarded β) :
    (within outcome >>= k) = match outcome with
      | .ok a => k a
      | .error fault => within (.error fault) := by
  cases outcome <;> rfl

/-- Two computations that agree step by step agree, each in its own representation. -/
theorem bind_map {m : Guarded β} {outcome : Except DecodeFault α} {f : α → β} {g : γ → δ}
    {k : β → Guarded δ} {next : α → Except DecodeFault γ} (hm : m = within (outcome.map f))
    (hk : ∀ a, outcome = .ok a → k (f a) = within ((next a).map g)) :
    (m >>= k) = within ((outcome >>= next).map g) := by
  rw [hm, within_bind]
  cases outcome with
  | error fault => rfl
  | ok a => exact hk a rfl

theorem ite_throw {broken holds : Prop} [Decidable broken] [Decidable holds] {fault : DecodeFault}
    {m : Guarded β} {outcome : Except DecodeFault α} {f : α → β} (hiff : broken ↔ ¬ holds)
    (hm : holds → m = within (outcome.map f)) : (if broken then throw fault else m) =
      within ((if holds then outcome else .error fault).map f) := by
  by_cases h : holds
  · rw [if_neg (fun hb ↦ hiff.mp hb h), if_pos h, hm h]
  · rw [if_pos (hiff.mpr h), if_neg h]
    rfl

end Guarded

open Guarded (access within)

namespace Bytes

def indexed (bs : Bytes) : Nat → Nat → Option Bytes
  | 0, _ => some []
  | n + 1, i => do
    let b ← bs[i]?
    let more ← bs.indexed n (i + 1)
    return b :: more

theorem indexed_eq {bs : Bytes} {n i : Nat} (h : i + n ≤ bs.length) :
    bs.indexed n i = some ((bs.drop i).take n) := by
  induction n generalizing i with
  | zero => rfl
  | succ n ih =>
    have hi : i < bs.length := by omega
    rw [indexed, List.getElem?_eq_getElem hi, ih (by omega), List.drop_eq_getElem_cons hi,
      List.take_succ_cons]
    rfl

end Bytes

/-- Reads `data` from `pos` on, up to `stop`. -/
structure Cursor where
  data : Bytes
  pos : Nat
  stop : Nat

namespace Cursor

def take (n : Nat) (c : Cursor) : Guarded (Bytes × Cursor) :=
  if c.stop < c.pos + n then throw .truncated
  else do
    let content ← access (c.data.slice? c.pos (c.pos + n))
    return (content, { c with pos := c.pos + n })

def byte (c : Cursor) : Guarded (UInt8 × Cursor) := do
  let (content, c) ← c.take 1
  let b ← access content[0]?
  return (b, c)

/-- A unit with its length in front, sliced out once more as a whole. -/
def prefixed (c : Cursor) : Guarded (Bytes × Cursor) := do
  let (len, c₁) ← c.take lengthWidth
  let word ← access (len.indexed lengthWidth 0)
  let (_, c₂) ← c₁.take (Bytes.ofLE word)
  let unit ← access (c.data.slice? c.pos c₂.pos)
  return (unit, c₂)

def skip : Nat → Cursor → Guarded Cursor
  | 0, c => pure c
  | n + 1, c => do
    let (_, c) ← c.prefixed
    c.skip n

def slot (spec : FieldSpec) (c : Cursor) : Guarded (Slot × Cursor) :=
  match spec.ty with
  | .packet =>
    if spec.isPacketArray then do
      let (count, c₁) ← c.byte
      if spec.count.toNat < count.toNat then throw .arrayOverflow
      else do
        let c₂ ← c₁.skip count.toNat
        let region ← access (c₁.data.slice? c₁.pos c₂.pos)
        return (.array count region, c₂)
    else do
      let (unit, c) ← c.prefixed
      return (.packet unit, c)
  | .memoryBlock => do
    let (unit, c) ← c.prefixed
    let content ← access (unit.slice? lengthWidth unit.length)
    return (.block content, c)
  | ty => do
    let (content, c) ← c.take spec.fixedLen
    return (.fixed ty content, c)

def bit (flags i : Nat) : Option Bool := if i < 32 then some (flags.testBit i) else none

def store (slots : List Slot) (i : Nat) (slot : Slot) : Option (List Slot) :=
  if i < slots.length then some (slots.set i slot) else none

def walk (flags : Nat) : Nat → List FieldSpec → List Slot → Cursor → Guarded (List Slot)
  | _, [], slots, _ => pure slots
  | i, spec :: specs, slots, c => do
    let present ← access (bit flags i)
    if present then do
      let (slot, c) ← c.slot spec
      let slots ← access (store slots i slot)
      walk flags (i + 1) specs slots c
    else walk flags (i + 1) specs slots c

/-- In front of `rest`, the end of a `region` that `after` follows. -/
def facing (region after rest : Bytes) : Cursor :=
  ⟨region ++ after, region.length - rest.length, region.length⟩

section facing

variable {region after rest unit more : Bytes}

theorem slice?_facing (h : unit ++ more <:+ region) :
    (region ++ after).slice? (facing region after (unit ++ more)).pos (facing region after more).pos =
      some unit := by
  obtain ⟨front, rfl⟩ := h
  have hstart : (facing (front ++ (unit ++ more)) after (unit ++ more)).pos = front.length := by
    simp only [facing, List.length_append]
    omega
  have hstop : (facing (front ++ (unit ++ more)) after more).pos = front.length + unit.length := by
    simp only [facing, List.length_append]
    omega
  rw [hstart, hstop, List.append_assoc, List.append_assoc, Bytes.slice?_append]

theorem suffix_right (h : unit ++ more <:+ region) : more <:+ region :=
  (List.suffix_append unit more).trans h

theorem take_facing (h : rest <:+ region) (n : Nat) :
    (facing region after rest).take n = within ((rest.cut n).map (Prod.map id (facing region after))) := by
  have hsum : (facing region after rest).pos + rest.length = (facing region after rest).stop :=
    Nat.sub_add_cancel h.length_le
  by_cases hn : n ≤ rest.length
  · obtain ⟨unit, more, rfl, rfl⟩ : ∃ unit more, rest = unit ++ more ∧ unit.length = n :=
      ⟨rest.take n, rest.drop n, (List.take_append_drop n rest).symm, List.length_take_of_le hn⟩
    have hnext : (facing region after (unit ++ more)).pos + unit.length = (facing region after more).pos := by
      have hle := (suffix_right h).length_le
      simp only [facing, List.length_append] at hsum ⊢
      omega
    rw [take, if_neg (by omega), Guarded.access_bind (a := unit), Bytes.cut_append, hnext]
    · rfl
    · rw [hnext]
      exact slice?_facing h
  · rw [take, if_pos (by omega), Bytes.cut, if_neg hn]
    rfl

theorem byte_nil : (facing region after []).byte = within (.error .truncated) := by
  rw [byte, take_facing List.nil_suffix]
  rfl

theorem byte_cons {b : UInt8} (h : b :: more <:+ region) :
    (facing region after (b :: more)).byte = within (.ok (b, facing region after more)) := by
  rw [byte, take_facing h]
  rfl

theorem prefixed_facing (h : rest <:+ region) : (facing region after rest).prefixed = within
    (rest.cutPrefixed.map (Prod.map id (facing region after))) := by
  refine Guarded.bind_map (take_facing h _) ?_
  rintro ⟨len, left⟩ hlen
  obtain ⟨rfl, hl⟩ := Bytes.cut_eq_ok.mp hlen
  have hword : len.indexed lengthWidth 0 = some len := by
    rw [Bytes.indexed_eq (by omega), List.drop_zero, ← hl, List.take_length]
  simp only [Prod.map_fst, id_eq, Guarded.access_bind hword]
  refine Guarded.bind_map (take_facing (suffix_right h) _) ?_
  rintro ⟨content, left⟩ hcontent
  obtain ⟨rfl, -⟩ := Bytes.cut_eq_ok.mp hcontent
  rw [← List.append_assoc] at h ⊢
  exact Guarded.access_bind (slice?_facing h) _

theorem skip_facing (h : rest <:+ region) (n : Nat) : (facing region after rest).skip n = within
    ((rest.cutUnits n).map fun r ↦ facing region after r.2) := by
  induction n generalizing rest with
  | zero => rfl
  | succ n ih =>
    rw [skip, Bytes.cutUnits]
    refine Guarded.bind_map (prefixed_facing h) ?_
    rintro ⟨unit, more⟩ hunit
    obtain ⟨-, rfl⟩ := Bytes.cutPrefixed_eq_ok.mp hunit
    simp only [Prod.map_snd, ih (suffix_right h)]
    cases more.cutUnits n <;> rfl

theorem slot_fixed {spec : FieldSpec} (h : spec.ty.isFixed) (c : Cursor) : c.slot spec = (do
    let (content, c) ← c.take spec.fixedLen
    return (.fixed spec.ty content, c)) := by
  unfold slot
  split
  · next ht => simp [ht, FieldType.isFixed] at h
  · next ht => simp [ht, FieldType.isFixed] at h
  · rfl

theorem slot_facing (h : rest <:+ region) (spec : FieldSpec) : (facing region after rest).slot spec =
    within ((Slot.ofBytes spec rest).map (Prod.map id (facing region after))) := by
  rcases spec.kinds with hf | hb | ⟨hp, hs⟩ | ha
  · rw [slot_fixed hf, Slot.ofBytes_fixed hf]
    exact Guarded.bind_map (take_facing h _) fun _ _ ↦ rfl
  · simp only [slot, hb, Slot.ofBytes_block hb]
    refine Guarded.bind_map (prefixed_facing h) ?_
    rintro ⟨unit, more⟩ hunit
    obtain ⟨hl, -⟩ := Bytes.isPacket_iff.mp (Bytes.cutPrefixed_eq_ok.mp hunit).1
    have hslice : unit.slice? lengthWidth unit.length = some (unit.drop lengthWidth) := by
      rw [Bytes.slice?, if_pos ⟨hl, Nat.le_refl _⟩, List.take_length]
    exact Guarded.access_bind hslice _
  · simp only [slot, hp, hs, Slot.ofBytes_packet hp hs, Bool.false_eq_true, if_false]
    exact Guarded.bind_map (prefixed_facing h) fun _ _ ↦ rfl
  · simp only [slot, FieldSpec.ty_of_isPacketArray ha, ha, if_true]
    cases rest with
    | nil =>
      rw [Slot.ofBytes_array_nil ha, byte_nil]
      rfl
    | cons count rest =>
      rw [Slot.ofBytes_array_cons ha, byte_cons h, Guarded.within_bind]
      by_cases hc : spec.count.toNat < count.toNat
      · simp only [hc, if_true]
        rfl
      · have hrest := (List.suffix_cons count rest).trans h
        simp only [hc, if_false]
        refine Guarded.bind_map (skip_facing hrest _) ?_
        rintro ⟨units, more⟩ hunits
        obtain ⟨elements, -, -, -, rfl⟩ := Bytes.cutUnits_eq_ok hunits
        exact Guarded.access_bind (slice?_facing hrest) _

theorem bit_eq {flags i : Nat} (h : i < 32) : bit flags i = some (flags.testBit i) := if_pos h

theorem store_append (done more : List Slot) (old slot : Slot) :
    store (done ++ old :: more) done.length slot = some (done ++ slot :: more) := by
  rw [store, if_pos (by simp), List.set_append_right _ _ (Nat.le_refl _), Nat.sub_self,
    List.set_cons_zero]

/-- From index `i` on the walk fills the empty slots of a table with what the reader finds. -/
theorem walk_facing {flags i : Nat} {specs : List FieldSpec} {done : List Slot} {room : Nat}
    (h : rest <:+ region) (hi : done.length = i) (hbits : i + specs.length ≤ 32)
    (hroom : specs.length ≤ room) :
    walk flags i specs (done ++ List.replicate room .absent) (facing region after rest) =
      within ((Slot.listOfBytes flags i specs rest).map fun r ↦
        done ++ (r.1 ++ List.replicate (room - specs.length) .absent)) := by
  induction specs generalizing rest i done room with
  | nil => rfl
  | cons spec specs ih =>
    rw [List.length_cons] at hbits hroom
    obtain ⟨room, rfl⟩ : ∃ k, room = k + 1 := ⟨room - 1, by omega⟩
    rw [walk, Guarded.access_bind (bit_eq (by omega)), Slot.listOfBytes, List.replicate_succ]
    -- the slot of this field joins the slots that are done
    have hnext (slot : Slot) {more : Bytes} (hmore : more <:+ region) :
        walk flags (i + 1) specs (done ++ slot :: List.replicate room .absent)
          (facing region after more) =
        within ((Slot.listOfBytes flags (i + 1) specs more >>= fun r ↦ pure (slot :: r.1, r.2)).map
          fun r ↦ done ++ (r.1 ++ List.replicate (room + 1 - (specs.length + 1)) .absent)) := by
      have hwalk := @ih more (i + 1) (done ++ [slot]) room hmore (by simp [hi]) (by omega) (by omega)
      rw [List.append_assoc, List.singleton_append] at hwalk
      rw [hwalk, Nat.add_sub_add_right]
      cases Slot.listOfBytes flags (i + 1) specs more with
      | error fault => rfl
      | ok found => simp [Except.map, bind, Except.bind, pure, Except.pure]
    cases flags.testBit i with
    | false => exact hnext .absent h
    | true =>
      refine Guarded.bind_map (slot_facing h spec) ?_
      rintro ⟨slot, more⟩ hslot
      obtain ⟨unit, -, rfl⟩ := Slot.ofBytes_eq_ok hslot
      have hstore := store_append done (List.replicate room .absent) .absent slot
      rw [hi] at hstore
      exact (Guarded.access_bind hstore _).trans (hnext slot (suffix_right h))

end facing
end Cursor
end GameHost
