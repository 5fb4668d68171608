import GameHost.Echo.App
import GameHost.Proofs.Wire.Reencoding

namespace GameHost

open Message (Measured unitOf)
open Slot (Fits)

namespace Schema

variable {s : Schema} {data : Bytes} {d : View}

theorem fits_of_decodeTop (h : s.decodeTop data = .ok d) :
    d.header = some (.ofBytes data) ∧ List.Forall₂ Fits s.fields d.slots ∧
      s.topOverhead + (d.slots.map Slot.unit).flatten.length + 1 ≤ Header.declaredLen data ∧
      Header.declaredLen data ≤ data.length := by
  rw [decodeTop, decodeTop?_eq] at h
  obtain ⟨holds, hview⟩ := checked_eq_ok.mp (Except.mapError_eq_ok.mp h)
  obtain ⟨hheader, -, rest, hslots⟩ := listOfBytes_of_viewOf hview
  obtain ⟨hfits, hregion, -⟩ := Slot.fits_of_listOfBytes hslots
  obtain ⟨-, -, -, hwhole, -⟩ := (s.topChecks_hold data).mp holds
  have hlen := length_topRegion holds
  rw [hregion, List.length_append] at hlen
  exact ⟨hheader, hfits, by omega, hwhole⟩

theorem viewOf_units {slots : List Slot} (h : List.Forall₂ Fits s.fields slots) (header : Option Header) :
    s.viewOf header (flagWord (slots.map (· != .absent))) (slots.map Slot.unit).flatten =
      .ok ⟨header, flagWord (slots.map (· != .absent)), slots⟩ := by
  have hbits (j : ℕ) : (flagWord (slots.map (· != .absent))).testBit (0 + j) =
      (slots.map (· != .absent)).getD j false := by
    rw [Nat.zero_add, testBit_flagWord]
  have hread := Slot.listOfBytes_of_fits h hbits []
  rw [List.append_nil] at hread
  exact Except.bind_eq_ok.mpr ⟨_, hread, rfl⟩

end Schema

namespace View

variable (d : View)

theorem measured_number (h : Fits (.scalar .uint32) (d.slot 0)) :
    Measured (.scalar .uint32, (d.get 0 UInt32).map .scalar) (d.slot 0).size? ∧
      unitOf (.scalar .uint32, (d.get 0 UInt32).map .scalar) = (d.slot 0).unit := by
  unfold View.get View.fixed
  generalize d.slot 0 = slot at h
  cases h with
  | absent => exact ⟨rfl, rfl⟩
  | @fixed bs hf hl =>
    have hword : FieldValue.scalar (Scalar.ofBytes bs : UInt32) = .inline bs :=
      congrArg FieldValue.inline (Header.toLE_word bs hl)
    have hwidth : bs.length = Scalar.width UInt32 := hl
    simp only [hwidth, if_true, Option.map_some, hword]
    refine ⟨FieldValue.sizeIn_inline.mpr ⟨hf, hl, ?_⟩, rfl⟩
    rw [← hl]
    rfl
  | block hb => cases hb
  | packet hp => cases hp
  | array ha => cases ha

theorem measured_text (h : Fits ⟨.char, 64⟩ (d.slot 1)) :
    Measured (⟨.char, 64⟩, (d.chars 1).map .raw) (d.slot 1).size? ∧
      unitOf (⟨.char, 64⟩, (d.chars 1).map .raw) = (d.slot 1).unit := by
  have hmeasured := h.measured
  unfold View.chars
  generalize d.slot 1 = slot at h hmeasured
  cases h with
  | absent => exact hmeasured
  | fixed => exact hmeasured
  | block hb => cases hb
  | packet hp => cases hp
  | array ha => cases ha

theorem measured_block (h : Fits .memoryBlock (d.slot 2)) :
    Measured (.memoryBlock, (d.block 2).map .block) (d.slot 2).size? ∧
      unitOf (.memoryBlock, (d.block 2).map .block) = (d.slot 2).unit := by
  have hmeasured := h.measured
  unfold View.block
  generalize d.slot 2 = slot at h hmeasured
  cases h with
  | absent => exact hmeasured
  | fixed hf => cases hf
  | block => exact hmeasured
  | packet hp => cases hp
  | array ha => cases ha

end View

namespace Echo

variable {d : View}

theorem schema_reply (d : View) : (reply d).schema = chatSchema := by
  unfold reply
  cases d.get 0 UInt32 <;> cases d.chars 1 <;> cases d.block 2 <;> rfl

theorem badIndex_reply (d : View) : (reply d).badIndex = none := by
  unfold reply
  cases d.get 0 UInt32 <;> cases d.chars 1 <;> cases d.block 2 <;> rfl

theorem entries_reply (d : View) : (reply d).entries = [(.scalar .uint32, (d.get 0 UInt32).map .scalar),
    (⟨.char, 64⟩, (d.chars 1).map .raw), (.memoryBlock, (d.block 2).map .block)] := by
  unfold reply
  cases d.get 0 UInt32 <;> cases d.chars 1 <;> cases d.block 2 <;> rfl

theorem measured_reply (h : List.Forall₂ Fits chatSchema.fields d.slots) :
    List.Forall₂ Measured (reply d).entries (d.slots.map Slot.size?) ∧
      (reply d).body = (d.slots.map Slot.unit).flatten := by
  obtain ⟨header, flags, slots⟩ := d
  obtain ⟨number, _, hnumber, hrest, rfl⟩ := List.forall₂_cons_left_iff.mp h
  obtain ⟨text, _, htext, hlast, rfl⟩ := List.forall₂_cons_left_iff.mp hrest
  obtain ⟨block, _, hblock, hnone, rfl⟩ := List.forall₂_cons_left_iff.mp hlast
  obtain rfl := List.forall₂_nil_left_iff.mp hnone
  obtain ⟨hnumber, hfirst⟩ := View.measured_number ⟨header, flags, [number, text, block]⟩ hnumber
  obtain ⟨htext, hsecond⟩ := View.measured_text ⟨header, flags, [number, text, block]⟩ htext
  obtain ⟨hblock, hthird⟩ := View.measured_block ⟨header, flags, [number, text, block]⟩ hblock
  rw [Message.body_eq, Message.units, entries_reply]
  refine ⟨.cons hnumber (.cons htext (.cons hblock .nil)), ?_⟩
  rw [List.map_cons, List.map_cons, List.map_cons, hfirst, hsecond, hthird]
  rfl

def presence (d : View) : ℕ := flagWord (d.slots.map (· != .absent))

def replyForm (h : Header) (d : View) : Bytes :=
  topForm h chatSchema.flagWidth (presence d) (d.slots.map Slot.unit).flatten

theorem measure_reply (h : List.Forall₂ Fits chatSchema.fields d.slots) :
    (reply d).measure = .ok (presence d, (reply d).body.length) := by
  have hpresent : (d.slots.map Slot.size?).map Option.isSome = d.slots.map (· != .absent) := by
    simp only [List.map_map, Function.comp_def, Slot.isSome_size?]
  rw [presence, ← hpresent]
  exact Message.measure_of_measured (badIndex_reply d) (measured_reply h).1

section decoded

variable {frame : Bytes} (hdecode : chatSchema.decodeTop frame = .ok d) (h : Header)

include hdecode

theorem length_replyForm_le : (replyForm h d).length ≤ Header.declaredLen frame := by
  obtain ⟨-, -, hroom, -⟩ := Schema.fits_of_decodeTop hdecode
  rw [replyForm, length_topForm]
  exact hroom

theorem decodeTop_replyForm :
    chatSchema.decodeTop (replyForm h d) = .ok ⟨some h, presence d, d.slots⟩ := by
  obtain ⟨-, hfits, hroom, -⟩ := Schema.fits_of_decodeTop hdecode
  have hmax := Header.declaredLen_le frame
  have hflags := Message.word_lt_of_measure (measure_reply hfits)
  rw [schema_reply] at hflags
  have hsize : chatSchema.topOverhead + (d.slots.map Slot.unit).flatten.length + 1 ≤ maxPacketSize := by omega
  have hform := decodeTop?_topForm (h := h) hflags hsize []
  rw [List.append_nil, presence, Schema.viewOf_units hfits] at hform
  exact congrArg (Except.mapError Error.decode) hform

theorem encodeTop_reply (buf : Bytes) : (reply d).encodeTop h buf =
    if (replyForm h d).length ≤ buf.length then
      (.ok (replyForm h d).length, replyForm h d ++ buf.drop (replyForm h d).length)
    else (.error (.bufferTooSmall (replyForm h d).length buf.length), buf) := by
  obtain ⟨-, hfits, hroom, -⟩ := Schema.fits_of_decodeTop hdecode
  have hmax := Header.declaredLen_le frame
  have hmeasure := measure_reply hfits
  have hlen : (replyForm h d).length = (reply d).schema.topOverhead + (reply d).body.length + 1 := by
    rw [replyForm, length_topForm, (measured_reply hfits).2, schema_reply]
    rfl
  have hform : replyForm h d = topForm h (reply d).schema.flagWidth (presence d) (reply d).body := by
    rw [replyForm, (measured_reply hfits).2, schema_reply]
  have hsmall : (replyForm h d).length ≤ maxPacketSize := Nat.le_trans (length_replyForm_le hdecode h) hmax
  split
  · next hfit =>
    rw [hlen] at hfit hsmall ⊢
    rw [Message.encodeTop_of_measure h buf hmeasure hsmall hfit, ← hform]
  · next hfit =>
    rw [Message.encodeTop, hmeasure]
    rw [hlen] at hfit hsmall ⊢
    simp only [Nat.not_lt.mpr hsmall, Nat.not_le.mp hfit, if_false, if_true]

end decoded

/-- What a frame is answered with, given enough room: a chat message with its fields. -/
def reply? (owner tick : UInt32) (frame : Bytes) : Option Bytes :=
  match chatSchema.decodeTop frame with
  | .error _ => none
  | .ok d =>
    d.header.bind fun h ↦ if h.kind = Session.chatKind then some (replyForm { h with owner, tick } d) else none

/-- The reply tells all fields of the frame again, under its header but for the slot and the tick. -/
structure Mirrors (owner tick : UInt32) (frame bytes : Bytes) : Prop where
  shown : ∃ d h d', chatSchema.decodeTop frame = .ok d ∧ d.header = some h ∧
    chatSchema.decodeTop bytes = .ok d' ∧ d'.header = some { h with owner, tick } ∧ d'.slots = d.slots
  length_le : bytes.length ≤ frame.length

variable {owner tick : UInt32} {frame bytes : Bytes}

theorem reply?_of_decodeTop (hdecode : chatSchema.decodeTop frame = .ok d) : reply? owner tick frame =
    if (Header.ofBytes frame).kind = Session.chatKind then some (replyForm { Header.ofBytes frame with owner, tick } d)
    else none := by
  rw [reply?, hdecode]
  simp only [(Schema.fits_of_decodeTop hdecode).1, Option.bind_some]

theorem isSome_reply? : (reply? owner tick frame).isSome ↔
    ∃ d h, chatSchema.decodeTop frame = .ok d ∧ d.header = some h ∧ h.kind = Session.chatKind := by
  cases hdecode : chatSchema.decodeTop frame with
  | error e => simp [reply?, hdecode]
  | ok d =>
    have hheader := (Schema.fits_of_decodeTop hdecode).1
    rw [reply?_of_decodeTop hdecode]
    by_cases hkind : (Header.ofBytes frame).kind = Session.chatKind
    · simp [hkind, hheader]
    · simp [hkind, hheader]

theorem mirrors_of_reply? (h : reply? owner tick frame = some bytes) : Mirrors owner tick frame bytes := by
  cases hdecode : chatSchema.decodeTop frame with
  | error e =>
    rw [reply?, hdecode] at h
    cases h
  | ok d =>
    obtain ⟨hheader, -, -, hwhole⟩ := Schema.fits_of_decodeTop hdecode
    rw [reply?_of_decodeTop hdecode, Option.ite_none_right_eq_some, Option.some_inj] at h
    obtain ⟨-, rfl⟩ := h
    refine ⟨⟨d, _, _, hdecode, hheader, decodeTop_replyForm hdecode _, rfl, rfl⟩, ?_⟩
    exact Nat.le_trans (length_replyForm_le hdecode _) hwhole

end Echo
end GameHost
