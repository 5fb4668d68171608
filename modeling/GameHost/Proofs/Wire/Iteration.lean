import GameHost.Proofs.Wire.Extent
import GameHost.Proofs.Wire.Slots

namespace GameHost

open FieldValue (isPacket)
open Guarded (within)

namespace PacketIter

/-- From `it` on, the iterator gives `taken`, one after the other, and then it is `last`. -/
inductive Produces : PacketIter → List Bytes → PacketIter → Prop
  | refl (it : PacketIter) : Produces it [] it
  | next {it more last : PacketIter} {element : Bytes} {taken : List Bytes}
      (gives : it.next? = some (element, more)) (goes : Produces more taken last) :
      Produces it (element :: taken) last

def Yields (it : PacketIter) (elements : List Bytes) : Prop :=
  ∃ last, it.Produces elements last ∧ last.next? = none

/-- A whole element is in front: what is left is not too short for a length, and that length does not
reach beyond it. -/
def Whole (it : PacketIter) : Prop :=
  lengthWidth ≤ it.region.length ∧
    Bytes.ofLE (it.region.take lengthWidth) + lengthWidth ≤ it.region.length

/-- The iterator is over `elements` that were cut off one by one. -/
structure Holds (it : PacketIter) (elements : List Bytes) : Prop where
  region : it.region = elements.flatten
  number : it.remaining = elements.length
  counted : ∀ e ∈ elements, isPacket e

/-- The iterator has `left` still to give. It has reached the place of a cursor in a region that ends at
`stop`, and gives next what the cursor cuts off there. -/
structure Beside (it : PacketIter) (left : List Bytes) (c : Cursor) (stop : Nat) : Prop where
  yields : it.Yields left
  sizeHint : it.sizeHint = left.length
  region : c.data.slice? c.pos stop = some it.region
  unit (element : Bytes) (more : PacketIter) : it.next? = some (element, more) →
    ∃ next, c.prefixed = within (.ok (element, next))
  whole : 0 < it.remaining → it.Whole

namespace Holds

variable {it more last : PacketIter} {e : Bytes} {elements taken : List Bytes}

theorem next? (h : it.Holds (e :: elements)) :
    ∃ more, it.next? = some (e, more) ∧ more.Holds elements := by
  obtain ⟨region, remaining⟩ := it
  obtain ⟨rfl, rfl, counted⟩ := h
  refine ⟨⟨elements.flatten, elements.length⟩, ?_, rfl, rfl, ?_⟩
  · exact next?_append (counted e List.mem_cons_self) elements.flatten elements.length
  · exact fun u hu ↦ counted u (List.mem_cons_of_mem e hu)

theorem next?_nil (h : it.Holds []) : it.next? = none := if_pos (.inl h.number)

theorem of_next? (h : it.Holds elements) (gives : it.next? = some (e, more)) :
    ∃ left, elements = e :: left ∧ more.Holds left := by
  cases elements with
  | nil =>
    rw [h.next?_nil] at gives
    cases gives
  | cons first left =>
    obtain ⟨others, hothers, hleft⟩ := h.next?
    obtain ⟨rfl, rfl⟩ := Prod.mk.inj (Option.some.inj (hothers.symm.trans gives))
    exact ⟨left, rfl, hleft⟩

theorem whole (h : it.Holds elements) (hpos : 0 < it.remaining) : it.Whole := by
  rw [h.number] at hpos
  obtain ⟨e, more, rfl⟩ := List.exists_cons_of_length_pos hpos
  obtain ⟨hl, hlen⟩ := Bytes.isPacket_iff.mp (h.counted e List.mem_cons_self)
  have hregion : it.region = e ++ more.flatten := h.region
  have hle : e.length ≤ it.region.length := by
    rw [hregion, List.length_append]
    exact Nat.le_add_right ..
  refine ⟨Nat.le_trans hl hle, ?_⟩
  rw [hregion, List.take_append_of_le_length hl, hlen, ← hregion]
  exact hle

theorem produces (h : it.Holds elements) : ∃ last, it.Produces elements last ∧ last.Holds [] := by
  induction elements generalizing it with
  | nil => exact ⟨it, .refl it, h⟩
  | cons e elements ih =>
    obtain ⟨more, hgives, hmore⟩ := h.next?
    obtain ⟨last, hgoes, hlast⟩ := ih hmore
    exact ⟨last, .next hgives hgoes, hlast⟩

/-- However far it has gone, the iterator has given the first elements and holds the others. -/
theorem of_produces (h : it.Holds elements) (hrun : it.Produces taken last) :
    ∃ left, elements = taken ++ left ∧ last.Holds left := by
  induction hrun generalizing elements with
  | refl it => exact ⟨elements, rfl, h⟩
  | next gives goes ih =>
    obtain ⟨others, rfl, hothers⟩ := h.of_next? gives
    obtain ⟨left, rfl, hleft⟩ := ih hothers
    exact ⟨left, rfl, hleft⟩

theorem yields (h : it.Holds elements) : it.Yields elements := by
  obtain ⟨last, hrun, hlast⟩ := h.produces
  exact ⟨last, hrun, hlast.next?_nil⟩

theorem toList (h : it.Holds elements) : it.toList = elements := by
  obtain ⟨region, remaining⟩ := it
  obtain ⟨rfl, rfl, counted⟩ := h
  exact toList_flatten counted

end Holds
end PacketIter

def Cursor.behind (c : Cursor) : Cursor := { c with pos := c.pos + 1 }

/-- In field `i` the view has `elements`, in the place that the walk entered at `start` and left at
`stop`, and at every step its iterator stands where the walk over them stood. -/
structure View.Retraces (d : View) (i : Nat) (spec : FieldSpec) (start stop : Cursor)
    (elements : List Bytes) : Prop where
  walk : start.slot spec = within (.ok (d.slot i, stop))
  count : ∃ count, start.data[start.pos]? = some count ∧ count.toNat = elements.length
  packetCount : d.packetCount i = some elements.length
  region : start.data.slice? start.behind.pos stop.pos = some elements.flatten
  prefixes (e : Bytes) : e ∈ elements →
    lengthWidth ≤ e.length ∧ Bytes.ofLE (e.take lengthWidth) = e.length - lengthWidth
  yields : (d.packets i).Yields elements
  toList : (d.packets i).toList = elements
  beside (taken : List Bytes) (it : PacketIter) : (d.packets i).Produces taken it →
    ∃ left c, elements = taken ++ left ∧
      start.behind.skip taken.length = within (.ok c) ∧ it.Beside left c stop.pos

namespace Slot

variable {spec : FieldSpec} {bs rest : Bytes} {slot : Slot}

theorem ofBytes_array (many : spec.isPacketArray) (h : ofBytes spec bs = .ok (slot, rest)) :
    ∃ (count : UInt8) (elements : List Bytes), slot = .array count elements.flatten ∧
      bs = count :: (elements.flatten ++ rest) ∧ count.toNat = elements.length ∧
      ∀ e ∈ elements, isPacket e := by
  obtain ⟨hfits, hne, rfl⟩ := fits_of_ofBytes h
  cases hfits with
  | absent => exact absurd rfl hne
  | fixed hf => exact absurd many (Bool.eq_false_iff.mp (FieldSpec.not_array_of_isFixed hf))
  | block hb => simp [FieldSpec.isPacketArray, hb] at many
  | packet _ hs => exact absurd many (Bool.eq_false_iff.mp hs)
  | @array count elements _ number _ counted => exact ⟨count, elements, rfl, rfl, number, counted⟩

end Slot

theorem Parses.ofBytes {flags i : Nat} {specs : List FieldSpec} {units : List Bytes}
    {readings : List Reading} (h : Parses flags i specs units readings) {rest left : Bytes}
    {slots : List Slot}
    (hslots : Slot.listOfBytes flags i specs (units.flatten ++ rest) = .ok (slots, left)) {j : Nat}
    {spec : FieldSpec} (field : specs[j]? = some spec) (bit : flags.testBit (i + j) = true) :
    Slot.ofBytes spec ((units.drop j).flatten ++ rest) =
      .ok (slots.getD j .absent, (units.drop (j + 1)).flatten ++ rest) := by
  induction h generalizing j slots with
  | nil => cases field
  | absent hbit more ih =>
    rw [Slot.listOfBytes, hbit] at hslots
    obtain ⟨⟨others, left⟩, hothers, hleft⟩ := Except.bind_eq_ok.mp hslots
    obtain ⟨rfl, rfl⟩ := Prod.mk.inj (Except.pure_eq_ok.mp hleft)
    cases j with
    | zero =>
      rw [Nat.add_zero, hbit] at bit
      cases bit
    | succ j =>
      rw [← Nat.add_assoc, Nat.add_right_comm] at bit
      exact ih hothers field bit
  | present hbit spells more ih =>
    -- what the reader takes first is the unit that is spelled in front
    obtain ⟨slot, hslot, -⟩ := spells.ofBytes (List.flatten _ ++ rest)
    rw [Slot.listOfBytes, if_pos hbit, List.flatten_cons, List.append_assoc] at hslots
    obtain ⟨⟨first, between⟩, hfirst, hmore⟩ := Except.bind_eq_ok.mp hslots
    obtain ⟨rfl, rfl⟩ := Prod.mk.inj (Except.ok.inj (hslot.symm.trans hfirst))
    obtain ⟨⟨others, left⟩, hothers, hleft⟩ := Except.bind_eq_ok.mp hmore
    obtain ⟨rfl, rfl⟩ := Prod.mk.inj (Except.pure_eq_ok.mp hleft)
    cases j with
    | zero =>
      obtain rfl : _ = spec := Option.some.inj field
      rw [List.drop_zero, List.flatten_cons, List.append_assoc]
      exact hslot
    | succ j =>
      rw [← Nat.add_assoc, Nat.add_right_comm] at bit
      exact ih hothers field bit

namespace Cursor

variable {region after rest : Bytes} {count : UInt8} {elements taken left : List Bytes}

theorem behind_facing (h : count :: rest <:+ region) :
    (facing region after (count :: rest)).behind = facing region after rest := by
  have hle := h.length_le
  have hpos : region.length - (count :: rest).length + 1 = region.length - rest.length := by
    rw [List.length_cons] at hle ⊢
    omega
  rw [behind, facing, hpos, facing]

theorem getElem?_facing (h : count :: rest <:+ region) :
    (region ++ after)[(facing region after (count :: rest)).pos]? = some count := by
  obtain ⟨front, rfl⟩ := h
  have hpos : (facing (front ++ count :: rest) after (count :: rest)).pos = front.length := by
    simp only [facing, List.length_append]
    omega
  rw [hpos, List.append_assoc, List.getElem?_append_right (Nat.le_refl _), Nat.sub_self]
  rfl

theorem skip_elements (counted : ∀ e ∈ elements, isPacket e) (h : elements.flatten ++ rest <:+ region) :
    (facing region after (elements.flatten ++ rest)).skip elements.length =
      within (.ok (facing region after rest)) := by
  rw [skip_facing h, Bytes.cutUnits_flatten counted]
  rfl

theorem facing_offset {data slack : Bytes} {units : List Bytes} {start limit : Nat}
    (hstart : start ≤ limit) (hlimit : limit ≤ data.length)
    (hregion : (data.take limit).drop start = units.flatten ++ slack) (j : Nat) :
    (units.drop j).flatten ++ slack <:+ data.take limit ∧
      facing (data.take limit) (data.drop limit) ((units.drop j).flatten ++ slack) =
        ⟨data, start + offset units j, limit⟩ := by
  have hsplit : units.flatten = (units.take j).flatten ++ (units.drop j).flatten := by
    rw [← List.flatten_append, List.take_append_drop]
  have hlen := congrArg List.length hregion
  rw [hsplit, List.append_assoc] at hregion
  rw [List.length_drop, List.length_take_of_le hlimit, hsplit, List.append_assoc,
    List.length_append] at hlen
  constructor
  · have hunits : (units.drop j).flatten ++ slack <:+ (data.take limit).drop start :=
      hregion ▸ List.suffix_append ..
    exact hunits.trans (List.drop_suffix ..)
  · rw [facing, List.take_append_drop, List.length_take_of_le hlimit, offset]
    congr 1
    omega

end Cursor

section facing

variable {region after rest : Bytes} {count : UInt8} {elements left : List Bytes}

theorem PacketIter.Holds.beside {it : PacketIter} (h : it.Holds left)
    (hleft : left.flatten ++ rest <:+ region) :
    it.Beside left (.facing region after (left.flatten ++ rest)) (Cursor.facing region after rest).pos where
  yields := h.yields
  sizeHint := h.number
  region := by
    rw [h.region]
    exact Cursor.slice?_facing hleft
  unit e more gives := by
    obtain ⟨others, rfl, -⟩ := h.of_next? gives
    refine ⟨.facing region after (others.flatten ++ rest), ?_⟩
    rw [Cursor.prefixed_facing hleft, List.flatten_cons, List.append_assoc,
      Bytes.cutPrefixed_eq_ok.mpr ⟨h.counted e List.mem_cons_self, rfl⟩]
    rfl
  whole := h.whole

variable {d : View} {i : Nat} {spec : FieldSpec}

theorem View.holds_packets (hslot : d.slot i = .array count elements.flatten)
    (number : count.toNat = elements.length) (counted : ∀ e ∈ elements, isPacket e) :
    (d.packets i).Holds elements := by
  have hpackets : d.packets i = ⟨elements.flatten, count.toNat⟩ := by rw [packets, hslot]
  rw [hpackets]
  exact ⟨rfl, number, counted⟩

theorem View.retraces_array (hslot : d.slot i = .array count elements.flatten)
    (number : count.toNat = elements.length) (counted : ∀ e ∈ elements, isPacket e)
    (hread : Slot.ofBytes spec (count :: (elements.flatten ++ rest)) = .ok (d.slot i, rest))
    (hbs : count :: (elements.flatten ++ rest) <:+ region) :
    d.Retraces i spec (.facing region after (count :: (elements.flatten ++ rest)))
      (.facing region after rest) elements where
  walk := by
    rw [Cursor.slot_facing hbs, hread]
    rfl
  count := ⟨count, Cursor.getElem?_facing hbs, number⟩
  packetCount := by
    have hcount : d.packetCount i = some count.toNat := by rw [packetCount, hslot]
    rw [hcount, number]
  region := by
    rw [Cursor.behind_facing hbs]
    exact Cursor.slice?_facing ((List.suffix_cons ..).trans hbs)
  prefixes e he := by
    obtain ⟨hl, hlen⟩ := Bytes.isPacket_iff.mp (counted e he)
    exact ⟨hl, by omega⟩
  yields := (holds_packets hslot number counted).yields
  toList := (holds_packets hslot number counted).toList
  beside taken it hrun := by
    obtain ⟨left, rfl, hleft⟩ := (holds_packets hslot number counted).of_produces hrun
    -- behind as many elements, the walk has the same bytes in front as the iterator
    have hsuffix : taken.flatten ++ (left.flatten ++ rest) <:+ region := by
      rw [← List.append_assoc, ← List.flatten_append]
      exact (List.suffix_cons ..).trans hbs
    refine ⟨left, .facing region after (left.flatten ++ rest), rfl, ?_,
      hleft.beside (Cursor.suffix_right hsuffix)⟩
    rw [Cursor.behind_facing hbs, List.flatten_append, List.append_assoc]
    exact Cursor.skip_elements (fun e he ↦ counted e (List.mem_append_left left he)) hsuffix

end facing

namespace Schema

variable {s : Schema} {data : Bytes} {d : View} {i : Nat} {spec : FieldSpec}

theorem retraces_of_viewOf {checks : List (Bool × DecodeFault)} {header : Option Header}
    {flags start limit : Nat} (holds : ∀ check ∈ checks, check.1 = true) (hstart : start ≤ limit)
    (hlimit : limit ≤ data.length)
    (h : s.viewOf header flags ((data.take limit).drop start) = .ok d)
    (field : s.fields[i]? = some spec) (many : spec.isPacketArray) (present : d.isPresent i) :
    ∃ units readings elements,
      s.Accepts checks flags ((data.take limit).drop start) units readings ∧
      d.Retraces i spec ⟨data, start + offset units i, limit⟩
        ⟨data, start + offset units (i + 1), limit⟩ elements := by
  obtain ⟨⟨slots, slack⟩, hslots, hview⟩ := Except.bind_eq_ok.mp h
  obtain rfl := Except.pure_eq_ok.mp hview
  obtain ⟨units, hparses, hregion⟩ := Slot.listOfBytes_eq_ok hslots
  have hshows : s.Shows flags ⟨header, flags, slots⟩ _ := shows_of_parses rfl hparses
  obtain ⟨-, bit⟩ := (hshows.isPresent i).mp present
  rw [hregion] at hslots
  have hslot := hparses.ofBytes hslots field ((Nat.zero_add i).symm ▸ bit)
  obtain ⟨hsuffix, hfirst⟩ := Cursor.facing_offset hstart hlimit hregion i
  obtain ⟨-, hlast⟩ := Cursor.facing_offset hstart hlimit hregion (i + 1)
  obtain ⟨count, elements, harray, hfront, number, counted⟩ := Slot.ofBytes_array many hslot
  rw [hfront] at hslot hsuffix hfirst
  refine ⟨units, _, elements, ⟨holds, hparses, slack, hregion⟩, ?_⟩
  rw [← hfirst, ← hlast]
  exact View.retraces_array harray number counted hslot hsuffix

end Schema

/-- The iterator over a present array gives back what the walk over the message has cut off, from the
byte that counts the elements up to the next field, and stands after each where the walk stood. -/
theorem iterator_retraces_walk (s : Schema) (data : Bytes) (d : View) (i : Nat) (spec : FieldSpec)
    (field : s.fields[i]? = some spec) (many : spec.isPacketArray) (present : d.isPresent i) :
    (s.decodeTop data = .ok d → ∃ units readings elements,
      s.Accepts (s.topChecks data) (s.topFlags data) (s.topRegion data) units readings ∧
      d.Retraces i spec ⟨data, s.topOverhead + offset units i, Header.declaredLen data - 1⟩
        ⟨data, s.topOverhead + offset units (i + 1), Header.declaredLen data - 1⟩ elements) ∧
    (s.decodeNested data = .ok d → ∃ units readings elements,
      s.Accepts (s.nestedChecks data) (s.nestedFlags data) (s.nestedRegion data) units readings ∧
      d.Retraces i spec ⟨data, s.nestedOverhead + offset units i, lengthWidth + Schema.nestedLen data⟩
        ⟨data, s.nestedOverhead + offset units (i + 1), lengthWidth + Schema.nestedLen data⟩
        elements) := by
  constructor
  · intro h
    rw [Schema.decodeTop, Schema.decodeTop?_eq] at h
    obtain ⟨holds, hview⟩ := checked_eq_ok.mp (Except.mapError_eq_ok.mp h)
    obtain ⟨-, -, hmin, hlen, -⟩ := (s.topChecks_hold data).mp holds
    exact Schema.retraces_of_viewOf holds (by omega) (by omega) hview field many present
  · intro h
    rw [Schema.decodeNested, Schema.decodeNested?_eq] at h
    obtain ⟨holds, hview⟩ := checked_eq_ok.mp (Except.mapError_eq_ok.mp h)
    obtain ⟨-, hend, hmin⟩ := (s.nestedChecks_hold data).mp holds
    have hover : s.nestedOverhead = lengthWidth + s.flagWidth.bytes := rfl
    exact Schema.retraces_of_viewOf holds (by omega) hend hview field many present

def Schema.listing : Schema :=
  ⟨.one, [⟨.packet, 3⟩, ⟨.memoryBlock, 1⟩], by decide, by decide⟩

def listed (front rear : Bytes) : Bytes := front ++ [2, 1, 0, 7, 0, 0, 1, 0, 9, 5] ++ rear

theorem iterator_retraces_walk_listed :
    (∃ d start stop, Schema.listing.decodeTop
        (listed [0xD6, 25, 0, 0, 0, 0, 0, 0, 0, 0, 0, 0, 0, 3] [rearGuard]) = .ok d ∧
      d.Retraces 0 ⟨.packet, 3⟩ start stop [[1, 0, 7], [0, 0]] ∧ start.pos = 14 ∧ stop.pos = 20) ∧
    (∃ d start stop, Schema.listing.decodeNested (listed [11, 0, 3] []) = .ok d ∧
      d.Retraces 0 ⟨.packet, 3⟩ start stop [[1, 0, 7], [0, 0]] ∧ start.pos = 3 ∧ stop.pos = 9) := by
  have htop : Schema.listing.decodeTop
      (listed [0xD6, 25, 0, 0, 0, 0, 0, 0, 0, 0, 0, 0, 0, 3] [rearGuard]) =
      .ok ⟨some .blank, 3, [.array 2 [1, 0, 7, 0, 0], .block [9]]⟩ := rfl
  have hnested : Schema.listing.decodeNested (listed [11, 0, 3] []) =
      .ok ⟨none, 3, [.array 2 [1, 0, 7, 0, 0], .block [9]]⟩ := rfl
  constructor
  · obtain ⟨units, -, elements, -, h⟩ := (iterator_retraces_walk _ _ _ 0 _ rfl rfl rfl).1 htop
    obtain rfl : [[1, 0, 7], [0, 0]] = elements := h.toList
    have hwalk := Prod.mk.inj (Except.ok.inj (Option.some.inj h.walk))
    exact ⟨_, _, _, htop, h, rfl, (congrArg Cursor.pos hwalk.2).symm⟩
  · obtain ⟨units, -, elements, -, h⟩ := (iterator_retraces_walk _ _ _ 0 _ rfl rfl rfl).2 hnested
    obtain rfl : [[1, 0, 7], [0, 0]] = elements := h.toList
    have hwalk := Prod.mk.inj (Except.ok.inj (Option.some.inj h.walk))
    exact ⟨_, _, _, hnested, h, rfl, (congrArg Cursor.pos hwalk.2).symm⟩

end GameHost
