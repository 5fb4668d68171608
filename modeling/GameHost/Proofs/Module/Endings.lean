import GameHost.Proofs.Module.Stock

namespace GameHost

variable {V τ β : Type} [Typed V τ]

namespace Tiles

variable {start stop stop' : ℕ} {as bs : List (Attachment V)}

theorem take (h : Tiles start as stop) (n : ℕ) : ∃ stop', Tiles start (as.take n) stop' := by
  induction as generalizing start n with
  | nil =>
    rw [List.take_nil]
    exact ⟨start, rfl⟩
  | cons a as ih =>
    cases n with
    | zero => exact ⟨start, rfl⟩
    | succ n =>
      obtain ⟨stop', hrest⟩ := ih h.2 n
      exact ⟨stop', h.1, hrest⟩

theorem keys_eq (has : Tiles start as stop) (hbs : Tiles start bs stop') (h : as.map (·.part) = bs.map (·.part)) :
    as.map Attachment.key = bs.map Attachment.key := by
  induction as generalizing start bs with
  | nil =>
    obtain rfl := List.map_eq_nil_iff.1 h.symm
    rfl
  | cons a as ih =>
    cases bs with
    | nil => cases h
    | cons b bs =>
      obtain ⟨hfirst, hrest⟩ := List.cons.inj h
      have hpart : a.part = b.part := hfirst
      have hextent : a.extent = b.extent := congrArg (fun part : Part V ↦ max part.size 1) hpart
      have hbs' := hbs.2
      rw [← hextent] at hbs'
      rw [List.map_cons, List.map_cons, ih has.2 hbs' hrest, Attachment.key, Attachment.key, has.1, hbs.1, hpart]

end Tiles

variable [DecidableEq τ]

theorem Part.drop_eq_nil {p : Part V} {v : V} : p.drop v = [] ↔ Typed.typeOf v ≠ Typed.typeOf p.value := by
  rw [drop]
  split <;> simp_all

theorem Part.drop_eq_singleton {p q : Part V} {v : V} (h : p.drop v = [.dropped q v]) : p = q := by
  rw [drop] at h
  split at h
  · cases h
    rfl
  · cases h

theorem Part.length_drop_le (p : Part V) (v : V) : (p.drop v).length ≤ 1 := by
  rw [drop]
  split <;> simp

def dropsOf (places : List (Attachment V × ℕ × V)) : List (PartEvent V) := places.flatMap fun p ↦ p.1.part.drop p.2.2

theorem length_dropsOf_le (places : List (Attachment V × ℕ × V)) : (dropsOf places).length ≤ places.length := by
  induction places with
  | nil => exact Nat.le_refl 0
  | cons p places ih =>
    have := p.1.part.length_drop_le p.2.2
    simp only [dropsOf, List.flatMap_cons, List.length_append, List.length_cons] at ih ⊢
    omega

theorem parts_of_dropsOf {as : List (Attachment V)} {slots : List (ℕ × V)} {parts : List (Part V)}
    {tail : List (PartEvent V)} {x : PartEvent V} (hroom : slots.length ≤ as.length)
    (hlength : parts.length = slots.length) (htail : tail.length ≤ 1)
    (h : dropsOf (as.zip slots) ++ tail = List.zipWith (fun part s ↦ .dropped part s.2) parts slots ++ [x]) :
    parts = (as.take slots.length).map (·.part) ∧ tail = [x] := by
  induction slots generalizing as parts with
  | nil =>
    obtain rfl := List.length_eq_zero_iff.1 hlength
    cases as <;> exact ⟨rfl, h⟩
  | cons s slots ih =>
    cases as with
    | nil => cases hroom
    | cons a as =>
      cases parts with
      | nil => cases hlength
      | cons part parts =>
        simp only [List.length_cons, Nat.add_le_add_iff_right, Nat.add_right_cancel_iff] at hroom hlength
        simp only [dropsOf, List.zip_cons_cons, List.flatMap_cons, List.zipWith_cons_cons] at h
        by_cases htype : Typed.typeOf s.2 = Typed.typeOf a.part.value
        · rw [Part.drop_of_type htype] at h
          obtain ⟨hfirst, hrest⟩ := List.cons.inj h
          obtain rfl := (PartEvent.dropped.inj hfirst).1
          obtain ⟨rfl, rfl⟩ := ih hroom hlength hrest
          exact ⟨rfl, rfl⟩
        · -- One value is left out, so there are too few.
          rw [Part.drop_eq_nil.2 htype] at h
          have hcount := congrArg List.length h
          have hfew := length_dropsOf_le (as.zip slots)
          rw [dropsOf] at hfew
          simp only [List.nil_append, List.length_append, List.length_cons, List.length_zipWith, List.length_zip,
            List.length_nil] at hcount hfew
          omega

namespace RecordTable

def Agrees (p : Attachment V × ℕ × V) : Prop := p.1.offset = p.2.1

theorem dropSlots_of_agrees {as : List (Attachment V)} {slots : List (ℕ × V)} (h : ∀ p ∈ as.zip slots, Agrees p) :
    dropSlots as slots = (true, dropsOf (as.zip slots)) := by
  induction as generalizing slots with
  | nil => rfl
  | cons a as ih =>
    cases slots with
    | nil => rfl
    | cons s slots =>
      rw [List.zip_cons_cons, List.forall_mem_cons] at h
      have hoffset : a.offset = s.1 := h.1
      simp only [dropSlots, if_pos hoffset, ih h.2]
      rfl

theorem dropSlots_of_stray {as : List (Attachment V)} {slots : List (ℕ × V)} {front back : List (Attachment V × ℕ × V)}
    {p : Attachment V × ℕ × V} (hzip : as.zip slots = front ++ p :: back) (hfront : ∀ q ∈ front, Agrees q)
    (hp : ¬ Agrees p) : dropSlots as slots = (false, dropsOf front) := by
  induction front generalizing as slots with
  | nil =>
    cases as with
    | nil => cases hzip
    | cons a as =>
      cases slots with
      | nil => cases hzip
      | cons s slots =>
        obtain ⟨rfl, -⟩ := List.cons.inj hzip
        exact if_neg hp
  | cons q front ih =>
    cases as with
    | nil => cases hzip
    | cons a as =>
      cases slots with
      | nil => cases hzip
      | cons s slots =>
        obtain ⟨rfl, hrest⟩ := List.cons.inj hzip
        rw [List.forall_mem_cons] at hfront
        have hoffset : a.offset = s.1 := hfront.1
        simp only [dropSlots, if_pos hoffset, ih hrest hfront.2]
        rfl

/-- What comes of it when a record is held against the layout of its kind. -/
inductive Meeting (l : Layout V β) (r : Record V) : Except Error Unit × List (PartEvent V) → Prop
  | short (hshort : l.attached.length < r.slots.length) : Meeting l r (.error (.wiring .foreignRecord), [])
  | whole (hroom : r.slots.length ≤ l.attached.length) (hall : ∀ p ∈ l.attached.zip r.slots, Agrees p) :
      Meeting l r (.ok (), dropsOf (l.attached.zip r.slots) ++ l.base.drop r.base)
  | stray {front back : List (Attachment V × ℕ × V)} {p : Attachment V × ℕ × V}
      (hzip : l.attached.zip r.slots = front ++ p :: back) (hfront : ∀ q ∈ front, Agrees q) (hp : ¬ Agrees p) :
      Meeting l r (.error (.wiring .foreignRecord), dropsOf front)

variable {t : RecordTable V β} {r : Record V} {l : Layout V β}

theorem destroy_of_short (hat : t.layout? r.kind = some l) (hshort : l.attached.length < r.slots.length) :
    t.destroy r = (.error (.wiring .foreignRecord), []) := by
  simp only [destroy, layout_of_some hat, if_pos hshort]

theorem destroy_of_stray (hat : t.layout? r.kind = some l) {front back : List (Attachment V × ℕ × V)}
    {p : Attachment V × ℕ × V} (hroom : ¬ l.attached.length < r.slots.length)
    (hzip : l.attached.zip r.slots = front ++ p :: back) (hfront : ∀ q ∈ front, Agrees q) (hp : ¬ Agrees p) :
    t.destroy r = (.error (.wiring .foreignRecord), dropsOf front) := by
  simp only [destroy, layout_of_some hat, if_neg hroom, dropSlots_of_stray hzip hfront hp]

theorem meeting_destroy (hat : t.layout? r.kind = some l) : Meeting l r (t.destroy r) := by
  by_cases hshort : l.attached.length < r.slots.length
  · rw [destroy_of_short hat hshort]
    exact .short hshort
  · cases hfind : (l.attached.zip r.slots).find? fun p ↦ p.1.offset ≠ p.2.1 with
    | none =>
      have hall : ∀ p ∈ l.attached.zip r.slots, Agrees p := by
        intro p hp
        simpa [Agrees] using List.find?_eq_none.1 hfind p hp
      simp only [destroy, layout_of_some hat, if_neg hshort, dropSlots_of_agrees hall]
      exact .whole (Nat.le_of_not_lt hshort) hall
    | some p =>
      obtain ⟨hp, front, back, hzip, hfront⟩ := List.find?_eq_some_iff_append.1 hfind
      have hagrees : ∀ q ∈ front, Agrees q := by
        intro q hq
        simpa [Agrees] using hfront q hq
      have hstray : ¬ Agrees p := by simpa [Agrees] using hp
      rw [destroy_of_stray hat hshort hzip hagrees hstray]
      exact .stray hzip hagrees hstray

theorem destroy_of_none (hat : t.layout? r.kind = none) : ∃ e, t.destroy r = (.error e, []) := by
  rcases t.layout_cases r.kind with ⟨l, hat', -⟩ | ⟨e, hlayout, -⟩
  · rw [hat] at hat'
    cases hat'
  · exact ⟨e, by simp only [destroy, hlayout]⟩

end RecordTable

namespace Holding

/-- The record goes with all that was made with it, or an error tells that nothing has been dropped. -/
def WholeOrUntouched (h : Holding V) (outcome : Except Error Unit × List (PartEvent V)) : Prop :=
  h.EndsBy outcome ∨ ∃ e, outcome = (.error e, [])

/-- How a record can meet a table without being left half undone. -/
inductive Clean (h : Holding V) (t : RecordTable V β) : Prop
  | missing (hat : t.layout? h.record.kind = none)
  | short {l : Layout V β} (hat : t.layout? h.record.kind = some l)
      (hshort : l.attached.length < h.record.slots.length)
  | own {l : Layout V β} (hat : t.layout? h.record.kind = some l)
      (hmade : h.made = .made l.base :: (l.attached.take h.record.slots.length).map fun a ↦ .made a.part)
  | silent {l : Layout V β} {front back : List (Attachment V × ℕ × V)} {p : Attachment V × ℕ × V}
      (hat : t.layout? h.record.kind = some l) (hzip : l.attached.zip h.record.slots = front ++ p :: back)
      (hp : p.1.offset ≠ p.2.1)
      (hfront : ∀ q ∈ front, q.1.offset = q.2.1 ∧ Typed.typeOf q.2.2 ≠ Typed.typeOf q.1.part.value)

variable {h : Holding V} {t : RecordTable V β} {l : Layout V β} {base : Part V} {front : List (Attachment V)}

omit [Typed V τ] [DecidableEq τ] in
theorem eq_nil_of_error {e : Error} {events : List (PartEvent V)} (h' : h.WholeOrUntouched (.error e, events)) :
    events = [] := by
  rcases h' with ⟨base, parts, -, -, houtcome⟩ | ⟨e, houtcome⟩
  · cases (Prod.mk.inj houtcome).1
  · exact (Prod.mk.inj houtcome).2

omit [Typed V τ] [DecidableEq τ] in
theorem endsBy_of_ok {events : List (PartEvent V)} (h' : h.WholeOrUntouched (.ok (), events)) :
    h.EndsBy (.ok (), events) := by
  rcases h' with hends | ⟨e, houtcome⟩
  · exact hends
  · cases (Prod.mk.inj houtcome).1

omit [Typed V τ] [DecidableEq τ] in
theorem ne_nil_of_ok {events : List (PartEvent V)} (h' : h.WholeOrUntouched (.ok (), events)) : events ≠ [] := by
  obtain ⟨base, parts, -, -, houtcome⟩ := endsBy_of_ok h'
  rw [(Prod.mk.inj houtcome).2, Record.drops]
  simp

omit [DecidableEq τ] in
theorem Built.parts_eq (hbuilt : h.Built base front) {base' : Part V} {parts : List (Part V)}
    (hmade : h.made = .made base' :: parts.map .made) : base' = base ∧ parts = front.map (·.part) := by
  rw [hbuilt.made] at hmade
  obtain ⟨hbase, hparts⟩ := List.cons.inj hmade
  refine ⟨(PartEvent.made.inj hbase).symm, ?_⟩
  apply (List.map_inj_right fun _ _ ↦ PartEvent.made.inj).1
  rw [List.map_map]
  exact hparts.symm

omit [DecidableEq τ] in
theorem Built.of_made (hbuilt : h.Built base front) (hl : l.Tiled)
    (hmade : h.made = .made l.base :: (l.attached.take h.record.slots.length).map fun a ↦ .made a.part) :
    h.Built l.base (l.attached.take h.record.slots.length) := by
  have hmade' : h.made = .made l.base :: ((l.attached.take h.record.slots.length).map (·.part)).map .made := by
    rw [hmade, List.map_map]
    rfl
  obtain ⟨hbase, hparts⟩ := hbuilt.parts_eq hmade'
  obtain ⟨stop, htiles⟩ := hbuilt.tiles
  obtain ⟨stop', htiles'⟩ := hl.tiles.take h.record.slots.length
  refine ⟨hmade, ?_, hbase ▸ hbuilt.type, stop', htiles'⟩
  rw [hbuilt.keys]
  exact (hbase ▸ htiles).keys_eq htiles' hparts.symm

theorem Clean.wholeOrUntouched (hclean : h.Clean t) (ht : t.Tiled) (hbuilt : h.Built base front) :
    h.WholeOrUntouched (t.destroy h.record) := by
  cases hclean with
  | missing hat => exact .inr (RecordTable.destroy_of_none hat)
  | short hat hshort => exact .inr ⟨_, RecordTable.destroy_of_short hat hshort⟩
  | @own l hat hmade =>
    exact .inl (RecordTable.endsBy_of_built (hbuilt.of_made (ht _ l hat) hmade) hat (List.take_prefix _ _))
  | @silent l front back p hat hzip hp hfront =>
    refine .inr ⟨.wiring .foreignRecord, ?_⟩
    by_cases hshort : l.attached.length < h.record.slots.length
    · exact RecordTable.destroy_of_short hat hshort
    · rw [RecordTable.destroy_of_stray hat hshort hzip (fun q hq ↦ (hfront q hq).1) hp, dropsOf,
        List.flatMap_eq_nil_iff.2 fun q hq ↦ Part.drop_eq_nil.2 (hfront q hq).2]

theorem WholeOrUntouched.clean (hends : h.WholeOrUntouched (t.destroy h.record)) : h.Clean t := by
  cases hat : t.layout? h.record.kind with
  | none => exact .missing hat
  | some l =>
    have hmeeting := RecordTable.meeting_destroy hat
    generalize t.destroy h.record = outcome at hends hmeeting
    cases hmeeting with
    | short hshort => exact .short hat hshort
    | whole hroom hall =>
      obtain ⟨base, parts, hmade, hlength, houtcome⟩ := endsBy_of_ok hends
      obtain ⟨hparts, htail⟩ := parts_of_dropsOf hroom hlength (Part.length_drop_le _ _) (Prod.mk.inj houtcome).2
      obtain rfl := Part.drop_eq_singleton htail
      refine .own hat ?_
      rw [hmade, hparts, List.map_map]
      rfl
    | stray hzip hfront hp =>
      refine .silent hat hzip hp fun q hq ↦ ⟨hfront q hq, ?_⟩
      exact Part.drop_eq_nil.1 (List.flatMap_eq_nil_iff.1 (eq_nil_of_error hends) q hq)

/-- The table that made the record drops all that is attached to it, and the base exactly if it has not been declared
anew. -/
theorem Built.destroy_own (hbuilt : h.Built base front) (hat : t.layout? h.record.kind = some l)
    (hfront : front <+: l.attached) : (t.destroy h.record).1 = .ok () ∧
      (h.WholeOrUntouched (t.destroy h.record) ↔ h.made.head? = some (.made l.base)) := by
  rw [RecordTable.destroy_of_built hbuilt hat hfront]
  refine ⟨rfl, fun hends ↦ ?_, fun hhead ↦ ?_⟩
  · obtain ⟨base', parts, hmade, -, houtcome⟩ := endsBy_of_ok hends
    obtain ⟨rfl, rfl⟩ := hbuilt.parts_eq hmade
    have htail := List.append_cancel_left (Prod.mk.inj houtcome).2
    rw [hmade, Part.drop_eq_singleton htail]
    rfl
  · rw [hbuilt.made] at hhead
    obtain rfl : base = l.base := PartEvent.made.inj (Option.some.inj hhead)
    rw [← RecordTable.destroy_of_built hbuilt hat hfront]
    exact .inl (RecordTable.endsBy_of_built hbuilt hat hfront)

end Holding

namespace Stock

def modules (histories : List (String × List (Deal V τ β))) : List (Stock V β) :=
  histories.map fun history ↦ run history.2 (start history.1)

theorem sound_modules {histories : List (String × List (Deal V τ β))} {s : Stock V β} (hs : s ∈ modules histories) :
    s.Sound := by
  obtain ⟨history, -, rfl⟩ := List.mem_map.1 hs
  exact (sound_start history.1).run history.2

end Stock

/-- Given to any module, a record goes whole or stays untouched exactly if it meets the module's table cleanly. Given to
the module that made it, it is always destroyed, and all of it exactly if its base is the one that is declared now. -/
theorem whole_or_untouched_iff (histories : List (String × List (Deal V τ β))) :
    ∀ s ∈ Stock.modules histories, ∀ h, some h ∈ s.held →
      (∀ t ∈ Stock.modules histories, h.WholeOrUntouched (t.table.destroy h.record) ↔ h.Clean t.table) ∧
      ∃ base, s.baseOf h.record.kind = some base ∧ (s.table.destroy h.record).1 = .ok () ∧
        (h.WholeOrUntouched (s.table.destroy h.record) ↔ h.made.head? = some (.made base)) := by
  intro s hs h hh
  obtain ⟨base, front, l, hbuilt, hat, hfront⟩ := (Stock.sound_modules hs).built h hh
  refine ⟨fun t ht ↦ ⟨fun hends ↦ hends.clean, fun hclean ↦ ?_⟩, l.base, ?_, hbuilt.destroy_own hat hfront⟩
  · exact hclean.wholeOrUntouched (Stock.sound_modules ht).tiled hbuilt
  · rw [← (Stock.sound_modules hs).based, hat]
    rfl

/-- Characters have a number of two bytes where parties have one of four, between attachments of one byte. The base of
items is declared anew, with another type, after one has been made. -/
def mixed : List (String × List (Deal Value ValueType Unit)) :=
  [("character", [.call (.setLayout 0 ⟨.int ⟨false, 4⟩ 0, some "character"⟩),
      .call (.attach 0 "flag" ⟨.int ⟨false, 1⟩ 1, some "flag"⟩),
      .call (.attach 0 "mail" ⟨.int ⟨false, 2⟩ 2, some "mail"⟩),
      .call (.attach 0 "buff" ⟨.int ⟨false, 1⟩ 3, some "buff"⟩), .call (.create 0),
      .call (.setLayout 1 ⟨.int ⟨false, 4⟩ 0, some "item"⟩), .call (.create 1),
      .call (.setLayout 1 ⟨.int ⟨false, 8⟩ 0, some "ware"⟩)]),
    ("party", [.call (.setLayout 0 ⟨.int ⟨false, 4⟩ 0, some "party"⟩),
      .call (.attach 0 "guild" ⟨.int ⟨false, 1⟩ 7, some "guild"⟩),
      .call (.attach 0 "rank" ⟨.int ⟨false, 4⟩ 8, some "rank"⟩),
      .call (.attach 0 "motto" ⟨.int ⟨false, 1⟩ 9, some "motto"⟩)])]

def hero : Holding Value where
  record := ⟨0, .int ⟨false, 4⟩ 0, [(4, .int ⟨false, 1⟩ 1), (5, .int ⟨false, 2⟩ 2), (7, .int ⟨false, 1⟩ 3)]⟩
  made := [.made ⟨.int ⟨false, 4⟩ 0, some "character"⟩, .made ⟨.int ⟨false, 1⟩ 1, some "flag"⟩,
    .made ⟨.int ⟨false, 2⟩ 2, some "mail"⟩, .made ⟨.int ⟨false, 1⟩ 3, some "buff"⟩]

def item : Holding Value := ⟨⟨1, .int ⟨false, 4⟩ 0, []⟩, [.made ⟨.int ⟨false, 4⟩ 0, some "item"⟩]⟩

theorem whole_or_untouched_iff_mixed : ∃ s ∈ Stock.modules mixed, ∃ t ∈ Stock.modules mixed,
    s.held = [some hero, some item] ∧ (hero.WholeOrUntouched (t.table.destroy hero.record) ↔ hero.Clean t.table) ∧
      hero.WholeOrUntouched (s.table.destroy hero.record) ∧ ¬ item.WholeOrUntouched (s.table.destroy item.record) := by
  obtain ⟨s, hs, hheld, hcharacter, hware⟩ : ∃ s ∈ Stock.modules mixed, s.held = [some hero, some item] ∧
      s.baseOf hero.record.kind = some ⟨.int ⟨false, 4⟩ 0, some "character"⟩ ∧
      s.baseOf item.record.kind = some ⟨.int ⟨false, 8⟩ 0, some "ware"⟩ := ⟨_, .head _, rfl, rfl, rfl⟩
  obtain ⟨hany, base, hbase, -, hown⟩ := whole_or_untouched_iff mixed s hs hero (by simp [hheld])
  obtain ⟨-, base', hbase', -, hown'⟩ := whole_or_untouched_iff mixed s hs item (by simp [hheld])
  refine ⟨s, hs, _, .tail _ (.head _), hheld, hany _ (.tail _ (.head _)), hown.2 ?_, ?_⟩
  · rw [← Option.some.inj (hcharacter.symm.trans hbase)]
    rfl
  · rw [hown', ← Option.some.inj (hware.symm.trans hbase')]
    decide

/-- The party's table drops the first value of a character with what it has for its own, and then tells that the record
is not one of its own. The table of characters says that the item is destroyed and has dropped nothing. -/
theorem half_undone : ∃ s ∈ Stock.modules mixed, ∃ t ∈ Stock.modules mixed, s.held = [some hero, some item] ∧
    t.table.destroy hero.record =
      (.error (.wiring .foreignRecord), [.dropped ⟨.int ⟨false, 1⟩ 7, some "guild"⟩ (.int ⟨false, 1⟩ 1)]) ∧
    ¬ hero.WholeOrUntouched (t.table.destroy hero.record) ∧
    s.table.destroy item.record = (.ok (), []) ∧ ¬ item.WholeOrUntouched (s.table.destroy item.record) := by
  refine ⟨_, .head _, _, .tail _ (.head _), rfl, rfl, fun hends ↦ ?_, rfl, fun hends ↦ ?_⟩
  · cases Holding.eq_nil_of_error hends
  · exact Holding.ne_nil_of_ok hends rfl

end GameHost
