import GameHost.Module.Perform
import GameHost.Proofs.Document.Saves
import GameHost.Proofs.Document.Straying
import Mathlib.Logic.Relation

/-!
Reading blocks comes to an end.

A reader may move the cursor, select sections and overwrite values. As long as it adds no entries, sections keep their
lengths, while the loop that hands out the blocks gets to a later place with every turn. So it ends, wherever readers
leave the cursor. `reading_ends` is the main statement.
-/

namespace GameHost

namespace Document

def outline (d : Document) : List (String × List String) := d.sections.map fun s ↦ (s.name, s.entries.map (·.1))

/-- All entries are where they were, under their keys. Sections may have been added, without entries. -/
def Kept (d d' : Document) : Prop := ∃ more, d'.outline = d.outline ++ more ∧ ∀ o ∈ more, o.2 = []

/-- The section that is selected is there, and so is the entry under the cursor. -/
structure InBounds (d : Document) : Prop where
  selected : ∀ i ∈ d.selected, i < d.sections.length
  cursor : ∀ c ∈ d.cursor, c < d.entries.length

inductive Touch (d : Document) : Document → Prop
  | moved {i : ℕ} (hi : i < d.entries.length) : Touch d { d with cursor := some i }
  | select (name : String) : Touch d (d.select name)
  | selectAt {i : ℕ} {d' : Document} (h : d.selectAt? i = some d') : Touch d d'
  | overwrite {key value : String} {d' : Document} (h : d.write key value = .ok d')
      (hsame : d'.entries.length = d.entries.length) : Touch d d'
  | setMode (mode : WriteMode) : Touch d { d with mode }

def Touches : Document → Document → Prop := Relation.ReflTransGen Touch

variable {d d' : Document} {i : ℕ}

theorem touch_of_moveTo (h : d.moveTo? i = some d') : d.Touch d' := by
  obtain ⟨⟨key, hat, -⟩, rfl⟩ := moveTo?_eq_some.1 h
  obtain ⟨hi, -⟩ := List.getElem?_eq_some_iff.1 hat
  exact .moved (by rwa [keys, List.length_map] at hi)

theorem touch_of_moved {a : Act} (h : a.moved? d = some d') : d.Touch d' := by
  obtain ⟨i, hto⟩ := Act.exists_of_moved h
  exact touch_of_moveTo hto

theorem length_putEntry {key : String} (value : String) {es : List Entry} (h : key ∈ es.map (·.1)) :
    (putEntry key value es).length = es.length := by
  have hkeys := congrArg List.length (keys_putEntry_eq key value es)
  rwa [if_pos h, List.length_map, List.length_map] at hkeys

/-- A write under a key that is there overwrites, as long as keys are unique. -/
theorem touch_overwrite {key value : String} (hmode : d.mode = .unique) (hkey : key ∈ d.keys)
    (h : d.write key value = .ok d') : d.Touch d' := by
  refine .overwrite h ?_
  rw [keys, entries] at hkey
  rw [entries, entries, current?_write h, hmode]
  cases hcurrent : d.current? with
  | none => rfl
  | some s =>
    rw [hcurrent] at hkey
    exact length_putEntry value hkey

/-! ### Entries stay where they are -/

namespace Kept

theorem refl (d : Document) : d.Kept d := ⟨[], (List.append_nil _).symm, by simp⟩

theorem trans {d'' : Document} (h : d.Kept d') (h' : d'.Kept d'') : d.Kept d'' := by
  obtain ⟨more, hmore, hempty⟩ := h
  obtain ⟨more', hmore', hempty'⟩ := h'
  refine ⟨more ++ more', by rw [hmore', hmore, List.append_assoc], ?_⟩
  intro o ho
  rcases List.mem_append.1 ho with ho | ho
  · exact hempty o ho
  · exact hempty' o ho

theorem of_outline_eq (h : d'.outline = d.outline) : d.Kept d' := ⟨[], by rw [h, List.append_nil], by simp⟩

end Kept

theorem kept_select (d : Document) (name : String) : d.Kept (d.select name) := by
  rw [select]
  split
  · exact .of_outline_eq rfl
  · refine ⟨[(name, [])], ?_, by simp⟩
    simp [outline, addSection, selectAt]

theorem kept_write {key value : String} (h : d.write key value = .ok d')
    (hsame : d'.entries.length = d.entries.length) : d.Kept d' := by
  cases hselected : d.selected with
  | none =>
    rw [write, hselected] at h
    cases h
  | some n =>
    rw [write, hselected] at h
    cases h
    refine .of_outline_eq ?_
    apply List.ext_getElem?
    intro j
    simp only [outline, List.getElem?_map, List.getElem?_modify]
    by_cases hj : n = j
    · subst hj
      cases hat : d.sections[n]? with
      | none => rfl
      | some s =>
        simp only [entries, current?, hselected, Option.bind_some, List.getElem?_modify, hat, Option.map_some,
          Option.map_eq_map, if_true, Option.getD_some] at hsame
        have hkeys : (Section.write d.mode key value s).entries.map (·.1) = s.entries.map (·.1) :=
          ((keys_write_section d.mode key value s).eq_of_length (by simp only [List.length_map, hsame])).symm
        have hname : (Section.write d.mode key value s).name = s.name := by
          cases d.mode <;> rfl
        simp only [if_true, Option.map_eq_map, Option.map_some, hkeys, hname]
    · simp only [hj, if_false, Option.map_eq_map, Option.map_id']

theorem Touch.kept (h : d.Touch d') : d.Kept d' := by
  cases h with
  | moved | setMode => exact .of_outline_eq rfl
  | select name => exact kept_select d name
  | selectAt h =>
    rw [selectAt?] at h
    split at h
    · cases h
      exact .of_outline_eq rfl
    · cases h
  | overwrite h hsame => exact kept_write h hsame

theorem Touches.kept (h : d.Touches d') : d.Kept d' := by
  induction h with
  | refl => exact .refl d
  | tail _ hlast ih => exact ih.trans hlast.kept

def Within (n : ℕ) (d : Document) : Prop := ∀ o ∈ d.outline, o.2.length ≤ n

theorem Within.kept {n : ℕ} (h : d.Within n) (hkept : d.Kept d') : d'.Within n := by
  obtain ⟨more, hmore, hempty⟩ := hkept
  intro o ho
  rw [hmore] at ho
  rcases List.mem_append.1 ho with ho | ho
  · exact h o ho
  · rw [hempty o ho]
    exact Nat.zero_le n

theorem Within.length_entries_le {n : ℕ} (h : d.Within n) : d.entries.length ≤ n := by
  rw [entries]
  cases hcurrent : d.current? with
  | none => exact Nat.zero_le n
  | some s =>
    obtain ⟨i, -, hat⟩ := Option.bind_eq_some_iff.1 hcurrent
    have hlen := h _ (List.mem_map_of_mem (List.mem_of_getElem? hat))
    rwa [List.length_map] at hlen

theorem within_readFuel (d : Document) : ∃ n, d.readFuel = n + 1 ∧ d.Within n := by
  have hroom : 0 < UInt32.size := by decide
  refine ⟨d.readFuel - 1, by rw [readFuel]; omega, ?_⟩
  intro o ho
  obtain ⟨s, hs, rfl⟩ := List.mem_map.1 ho
  have hmem : s.entries.length ∈ d.sections.map fun s : Section ↦ s.entries.length := List.mem_map_of_mem hs
  have hmax := List.le_max?_getD_of_mem hmem (k := 0)
  rw [readFuel, List.foldl_max, List.length_map]
  omega

/-! ### Sections and cursor stay in bounds -/

theorem inBounds_ofSections (sections : List Section) : (ofSections sections).InBounds := ⟨nofun, nofun⟩

theorem inBounds_selectAt (hi : i < d.sections.length) : (d.selectAt i).InBounds := by
  constructor
  · rintro _ ⟨⟩
    exact hi
  · nofun

theorem InBounds.write {key value : String} (h : d.InBounds) (hwrite : d.write key value = .ok d') : d'.InBounds := by
  obtain ⟨hkeys, hcursor⟩ := keys_write hwrite
  have hlength : d.entries.length ≤ d'.entries.length := by
    have hle := hkeys.length_le
    rwa [keys, keys, List.length_map, List.length_map] at hle
  rw [Document.write] at hwrite
  split at hwrite
  · cases hwrite
  · next n hselected =>
    cases hwrite
    refine ⟨?_, ?_⟩
    · intro i hi
      have hi' := h.selected i hi
      rwa [List.length_modify]
    · intro c hc
      exact Nat.lt_of_lt_of_le (h.cursor c (hcursor ▸ hc)) hlength

theorem InBounds.touch (h : d.InBounds) (ht : d.Touch d') : d'.InBounds := by
  cases ht with
  | moved hi =>
    refine ⟨h.selected, ?_⟩
    rintro _ ⟨⟩
    exact hi
  | select name =>
    obtain ⟨c, i, hselect, hi, -⟩ := exists_selectAt d name
    rw [hselect]
    exact inBounds_selectAt hi
  | selectAt hselect =>
    rw [selectAt?] at hselect
    split at hselect
    · next hi =>
      cases hselect
      exact inBounds_selectAt hi
    · cases hselect
  | overwrite hwrite _ => exact h.write hwrite
  | setMode mode => exact ⟨h.selected, h.cursor⟩

theorem InBounds.touches (h : d.InBounds) (ht : d.Touches d') : d'.InBounds := by
  induction ht with
  | refl => exact h
  | tail _ hlast ih => exact ih.touch hlast

/-! ### Operations -/

theorem touches_advance (d : Document) : d.Touches (d.advance d.upcoming.length) := by
  rw [advance]
  split
  · exact .refl
  · next hsome =>
    have hle := (List.takeWhile_prefix (l := d.entries.drop d.ahead) fun e ↦ !isMarker e.1).length_le
    rw [List.length_drop] at hle
    have hle' : d.upcoming.length ≤ d.entries.length - d.ahead := hle
    exact .single (.moved (by omega))

theorem touches_getD {d? : Option Document} (h : ∀ d' ∈ d?, d.Touch d') : d.Touches (d?.getD d) := by
  cases d? with
  | none => exact .refl
  | some d' => exact .single (h d' rfl)

/-- Any operation on a document is among these, except one that writes a new entry. -/
theorem touches_perform (op : DocumentOp)
    (hold : ∀ key value, op = .write key value → d.mode = .unique ∧ key ∈ d.keys) : d.Touches (op.perform d).2 := by
  cases op with
  | select name => exact .single (.select name)
  | selectAt i =>
    rw [DocumentOp.perform]
    split
    · next hselect => exact .single (.selectAt hselect)
    · exact .refl
  | setMode mode => exact .single (.setMode mode)
  | write key value =>
    obtain ⟨hmode, hkey⟩ := hold key value rfl
    rw [DocumentOp.perform]
    split
    · next hwrite => exact .single (touch_overwrite hmode hkey hwrite)
    · exact .refl
  | next => exact touches_getD fun d' hd' ↦ touch_of_moveTo hd'
  | prev => exact touches_getD fun d' hd' ↦ touch_of_moved (a := .prev) hd'
  | walk => exact touches_advance d
  | _ => exact .refl

theorem InBounds.perform (op : DocumentOp) (h : d.InBounds) : (op.perform d).2.InBounds := by
  by_cases hwrites : ∃ key value, op = .write key value
  · obtain ⟨key, value, rfl⟩ := hwrites
    rw [DocumentOp.perform]
    split
    · next hwrite => exact h.write hwrite
    · exact h
  · exact h.touches (touches_perform op fun key value heq ↦ absurd ⟨key, value, heq⟩ hwrites)

end Document

/-- The reader of the hook never adds entries. It may fail, and do all else. -/
def BlockHook.Tame {σ : Type} (h : BlockHook σ) : Prop := ∀ s d, Document.Touches d (h.read s d).2.2

structure Turn (σ : Type) where
  index : ℕ
  state : σ
  document : Document

namespace Turn

variable {σ : Type}

def entry? (t : Turn σ) : Option Entry := t.document.entries[t.index]?

def handed (t : Turn σ) : Document := { t.document with cursor := some t.index }

/-- The turn after an entry: it is behind that entry, and behind the cursor. -/
def behind (index : ℕ) (s : σ) (d : Document) : Turn σ := ⟨max (d.cursor.getD index) index + 1, s, d⟩

def hook? (hooks : List (BlockHook σ)) (t : Turn σ) : Option (BlockHook σ) :=
  (t.entry?.filter fun e ↦ Document.startsWith e.1 Document.blockKey).bind fun e ↦ hooks.find? (·.module == e.2)

def dispatched? (hooks : List (BlockHook σ)) (t : Turn σ) : Option (Option ℕ × ℕ) :=
  (t.hook? hooks).map fun _ ↦ (t.document.selected, t.index)

end Turn

namespace Document

open Turn

variable {σ : Type} {hooks : List (BlockHook σ)}

/-- Why reading ends: the section does, or there is an end entry, or a reader fails. -/
inductive Stops (hooks : List (BlockHook σ)) (t : Turn σ) : Except Error Unit × σ × Document → Prop
  | exhausted (hat : t.entry? = none) : Stops hooks t (.ok (), t.state, t.document)
  | ended {e : Entry} (hat : t.entry? = some e) (hend : isEnd e) : Stops hooks t (.ok (), t.state, t.handed)
  | failed {h : BlockHook σ} {cause : Error} {s : σ} {d : Document} (hhook : t.hook? hooks = some h)
      (hread : h.read t.state t.handed = (.error cause, s, d)) : Stops hooks t (.error cause, s, d)

/-- How reading goes on, past an entry that is no marker, past a block that nobody has a hook for, or past a block that
was handed to a reader, who succeeded. -/
inductive Goes (hooks : List (BlockHook σ)) (t : Turn σ) : Turn σ → Prop
  | skipped {e : Entry} (hat : t.entry? = some e) (hplain : isMarker e.1 = false) :
      Goes hooks t (behind t.index t.state t.document)
  | unclaimed {e : Entry} (hat : t.entry? = some e) (hblock : startsWith e.1 blockKey)
      (hnone : t.hook? hooks = none) : Goes hooks t (behind t.index t.state t.handed)
  | dispatched {h : BlockHook σ} {s : σ} {d : Document} (hhook : t.hook? hooks = some h)
      (hread : h.read t.state t.handed = (.ok (), s, d)) : Goes hooks t (behind t.index s d)

inductive Run (hooks : List (BlockHook σ)) : Turn σ → List (Turn σ) → Except Error Unit × σ × Document → Prop
  | stop {t : Turn σ} {r : Except Error Unit × σ × Document} (h : Stops hooks t r) : Run hooks t [t] r
  | go {t next : Turn σ} {turns : List (Turn σ)} {r : Except Error Unit × σ × Document} (h : Goes hooks t next)
      (rest : Run hooks next turns r) : Run hooks t (t :: turns) r

variable {t next : Turn σ} {turns : List (Turn σ)} {r : Except Error Unit × σ × Document} {fuel : ℕ}

def readFrom (hooks : List (BlockHook σ)) (fuel : ℕ) (t : Turn σ) : Option (Except Error Unit × σ × Document) :=
  readBlocks hooks fuel t.index t.state t.document

theorem hook?_eq {e : Entry} (hat : t.entry? = some e) (hblock : startsWith e.1 blockKey) :
    t.hook? hooks = hooks.find? (·.module == e.2) := by
  rw [hook?, hat, Option.filter_some, if_pos hblock, Option.bind_some]

theorem exists_of_hook? {h : BlockHook σ} (hhook : t.hook? hooks = some h) :
    ∃ e, t.entry? = some e ∧ startsWith e.1 blockKey ∧ hooks.find? (·.module == e.2) = some h := by
  obtain ⟨e, he, hfind⟩ := Option.bind_eq_some_iff.1 hhook
  obtain ⟨hat, hblock⟩ := Option.filter_eq_some_iff.1 he
  exact ⟨e, hat, hblock, hfind⟩

theorem readFrom_stops (h : Stops hooks t r) : readFrom hooks (fuel + 1) t = some r := by
  cases h with
  | exhausted hat => exact readBlocks_done hat
  | ended hat hend => exact readBlocks_end hat hend
  | failed hhook hread =>
    obtain ⟨e, hat, hblock, hfind⟩ := exists_of_hook? hhook
    exact readBlocks_failed hat hblock hfind hread

theorem readFrom_goes (h : Goes hooks t next) : readFrom hooks (fuel + 1) t = readFrom hooks fuel next := by
  cases h with
  | skipped hat hplain => exact readBlocks_plain hat hplain
  | unclaimed hat hblock hnone =>
    rw [hook?_eq hat hblock] at hnone
    simp only [readFrom, behind, Turn.handed, Option.getD_some, Nat.max_self]
    exact readBlocks_passed hat hblock hnone
  | dispatched hhook hread =>
    obtain ⟨e, hat, hblock, hfind⟩ := exists_of_hook? hhook
    exact readBlocks_handed hat hblock hfind hread

theorem stops_or_goes (hooks : List (BlockHook σ)) (t : Turn σ) :
    (∃ r, Stops hooks t r) ∨ ∃ next, Goes hooks t next := by
  cases hat : t.entry? with
  | none => exact .inl ⟨_, .exhausted hat⟩
  | some e =>
    rcases entry_cases e with hblock | hend | hplain
    · cases hhook : t.hook? hooks with
      | none => exact .inr ⟨_, .unclaimed hat hblock hhook⟩
      | some h =>
        rcases hread : h.read t.state t.handed with ⟨cause | done, s, d⟩
        · exact .inl ⟨_, .failed hhook hread⟩
        · exact .inr ⟨_, .dispatched hhook hread⟩
    · exact .inl ⟨_, .ended hat hend⟩
    · exact .inr ⟨_, .skipped hat hplain⟩

/-! ### There is one way to read on -/

def fate (hooks : List (BlockHook σ)) (t : Turn σ) : (Except Error Unit × σ × Document) ⊕ Turn σ :=
  match t.entry? with
  | none => .inl (.ok (), t.state, t.document)
  | some e =>
    if isEnd e then .inl (.ok (), t.state, t.handed)
    else if isMarker e.1 = false then .inr (behind t.index t.state t.document)
    else match t.hook? hooks with
      | none => .inr (behind t.index t.state t.handed)
      | some h =>
        match h.read t.state t.handed with
        | (.ok (), s, d) => .inr (behind t.index s d)
        | stopped => .inl stopped

theorem isMarker_of_block {e : Entry} (hblock : startsWith e.1 blockKey) : isMarker e.1 := by
  rw [isMarker, hblock, Bool.true_or]

theorem Stops.fate_eq (h : Stops hooks t r) : fate hooks t = .inl r := by
  cases h with
  | exhausted hat => rw [fate, hat]
  | ended hat hend => simp only [fate, hat, hend, if_true]
  | failed hhook hread =>
    obtain ⟨e, hat, hblock, -⟩ := exists_of_hook? hhook
    simp only [fate, hat, isEnd_of_block hblock, isMarker_of_block hblock, hhook, hread, Bool.false_eq_true,
      Bool.true_eq_false, if_false]

theorem Goes.fate_eq (h : Goes hooks t next) : fate hooks t = .inr next := by
  cases h with
  | skipped hat hplain => simp only [fate, hat, isEnd_of_plain hplain, hplain, Bool.false_eq_true, if_false, if_true]
  | unclaimed hat hblock hnone =>
    simp only [fate, hat, isEnd_of_block hblock, isMarker_of_block hblock, hnone, Bool.false_eq_true,
      Bool.true_eq_false, if_false]
  | dispatched hhook hread =>
    obtain ⟨e, hat, hblock, -⟩ := exists_of_hook? hhook
    simp only [fate, hat, isEnd_of_block hblock, isMarker_of_block hblock, hhook, hread, Bool.false_eq_true,
      Bool.true_eq_false, if_false]

theorem Run.unique {turns' : List (Turn σ)} {r' : Except Error Unit × σ × Document} (h : Run hooks t turns r)
    (h' : Run hooks t turns' r') : turns' = turns ∧ r' = r := by
  induction h generalizing turns' with
  | stop hstops =>
    cases h' with
    | stop hstops' => exact ⟨rfl, Sum.inl.inj (hstops'.fate_eq.symm.trans hstops.fate_eq)⟩
    | go hgoes' _ => cases hgoes'.fate_eq.symm.trans hstops.fate_eq
  | go hgoes _ ih =>
    cases h' with
    | stop hstops' => cases hstops'.fate_eq.symm.trans hgoes.fate_eq
    | go hgoes' rest' =>
      obtain rfl := Sum.inr.inj (hgoes'.fate_eq.symm.trans hgoes.fate_eq)
      obtain ⟨rfl, rfl⟩ := ih rest'
      exact ⟨rfl, rfl⟩

theorem lt_index_behind (index : ℕ) (s : σ) (d : Document) : index < (behind index s d).index :=
  Nat.lt_succ_of_le (Nat.le_max_right _ _)

theorem Goes.index_lt (h : Goes hooks t next) : t.index < next.index := by
  cases h <;> exact lt_index_behind _ _ _

theorem Goes.onward (h : Goes hooks t next) : ∃ e, t.entry? = some e ∧ isEnd e = false := by
  cases h with
  | skipped hat hplain => exact ⟨_, hat, isEnd_of_plain hplain⟩
  | unclaimed hat hblock => exact ⟨_, hat, isEnd_of_block hblock⟩
  | dispatched hhook =>
    obtain ⟨e, hat, hblock, -⟩ := exists_of_hook? hhook
    exact ⟨e, hat, isEnd_of_block hblock⟩

theorem Goes.index_lt_length (h : Goes hooks t next) : t.index < t.document.entries.length := by
  obtain ⟨e, hat, -⟩ := h.onward
  exact (List.getElem?_eq_some_iff.1 hat).1

theorem touches_handed {e : Entry} (hat : t.entry? = some e) : t.document.Touches t.handed :=
  .single (.moved (List.getElem?_eq_some_iff.1 hat).1)

/-- No reader adds entries when it is called from a turn on. -/
def Spares (hooks : List (BlockHook σ)) (t : Turn σ) : Prop :=
  ∀ u h, Relation.ReflTransGen (Goes hooks) t u → u.hook? hooks = some h →
    u.handed.Touches (h.read u.state u.handed).2.2

theorem Spares.after (hspares : Spares hooks t) (h : Goes hooks t next) : Spares hooks next :=
  fun u hook hreach hhook ↦ hspares u hook (.head h hreach) hhook

theorem spares_of_tame (htame : ∀ h ∈ hooks, h.Tame) (t : Turn σ) : Spares hooks t := by
  intro u h _ hhook
  obtain ⟨e, -, -, hfind⟩ := exists_of_hook? hhook
  exact htame h (List.mem_of_find?_eq_some hfind) _ _

section

variable (hspares : Spares hooks t)

include hspares

theorem touches_read {h : BlockHook σ} (hhook : t.hook? hooks = some h) :
    t.document.Touches (h.read t.state t.handed).2.2 := by
  obtain ⟨e, hat, -⟩ := exists_of_hook? hhook
  exact (touches_handed hat).trans (hspares t h .refl hhook)

theorem Goes.touches (h : Goes hooks t next) : t.document.Touches next.document := by
  cases h with
  | skipped => exact .refl
  | unclaimed hat => exact touches_handed hat
  | dispatched hhook hread =>
    have htouches := touches_read hspares hhook
    rwa [hread] at htouches

theorem Stops.touches (h : Stops hooks t r) : t.document.Touches r.2.2 := by
  cases h with
  | exhausted => exact .refl
  | ended hat => exact touches_handed hat
  | failed hhook hread =>
    have htouches := touches_read hspares hhook
    rwa [hread] at htouches

/-- Each turn gets further in sections that do not grow. -/
theorem exists_run {n : ℕ} (hwithin : t.document.Within n) (hfuel : n ≤ t.index + fuel) :
    ∃ turns r, Run hooks t turns r ∧ readFrom hooks (fuel + 1) t = some r := by
  induction fuel generalizing t with
  | zero =>
    rcases stops_or_goes hooks t with ⟨r, hstops⟩ | ⟨next, hgoes⟩
    · exact ⟨_, r, .stop hstops, readFrom_stops hstops⟩
    · have hlt := hgoes.index_lt_length
      have hle := hwithin.length_entries_le
      omega
  | succ fuel ih =>
    rcases stops_or_goes hooks t with ⟨r, hstops⟩ | ⟨next, hgoes⟩
    · exact ⟨_, r, .stop hstops, readFrom_stops hstops⟩
    · have hlt := hgoes.index_lt
      obtain ⟨turns, r, hrun, hread⟩ := ih (hspares.after hgoes) (hwithin.kept (hgoes.touches hspares).kept) (by omega)
      exact ⟨_, r, .go hgoes hrun, (readFrom_goes hgoes).trans hread⟩

theorem Run.touches (h : Run hooks t turns r) :
    (∀ u ∈ turns, t.document.Touches u.document) ∧ t.document.Touches r.2.2 := by
  induction h with
  | stop h =>
    refine ⟨?_, h.touches hspares⟩
    intro u hu
    rw [List.mem_singleton.1 hu]
    exact .refl
  | go h rest ih =>
    have hfirst := h.touches hspares
    obtain ⟨hturns, hlast⟩ := ih (hspares.after h)
    refine ⟨?_, hfirst.trans hlast⟩
    rw [List.forall_mem_cons]
    exact ⟨.refl, fun u hu ↦ hfirst.trans (hturns u hu)⟩

end

theorem Run.index_le (h : Run hooks t turns r) : ∀ u ∈ turns, t.index ≤ u.index := by
  induction h with
  | stop =>
    intro u hu
    rw [List.mem_singleton.1 hu]
  | go h rest ih =>
    rw [List.forall_mem_cons]
    exact ⟨Nat.le_refl _, fun u hu ↦ Nat.le_trans (Nat.le_of_lt h.index_lt) (ih u hu)⟩

theorem Run.ne_nil (h : Run hooks t turns r) : turns ≠ [] := by
  cases h <;> exact List.cons_ne_nil _ _

theorem Run.increasing (h : Run hooks t turns r) : turns.Pairwise fun u v ↦ u.index < v.index := by
  induction h with
  | stop => exact List.pairwise_singleton _ _
  | go h rest ih => exact .cons (fun u hu ↦ Nat.lt_of_lt_of_le h.index_lt (rest.index_le u hu)) ih

theorem dispatched_increasing (h : turns.Pairwise fun u v : Turn σ ↦ u.index < v.index) :
    (turns.filterMap (dispatched? hooks)).Pairwise fun a b ↦ a.2 < b.2 := by
  refine h.filterMap _ ?_
  intro u v huv a ha b hb
  obtain ⟨-, -, rfl⟩ := Option.map_eq_some_iff.1 ha
  obtain ⟨-, -, rfl⟩ := Option.map_eq_some_iff.1 hb
  exact huv

theorem Run.onward (h : Run hooks t turns r) : ∀ u ∈ turns.dropLast, ∃ e, u.entry? = some e ∧ isEnd e = false := by
  induction h with
  | stop => exact nofun
  | go h rest ih =>
    rw [List.dropLast_cons_of_ne_nil rest.ne_nil, List.forall_mem_cons]
    exact ⟨h.onward, ih⟩

/-- Reading ends, whatever readers do, as long as they add no entries. There is one way for it to go on. It examines
entries further and further on, so that no block of a section is handed out twice, or after a later one. It goes on past
all entries except an end entry, as long as no reader fails. Entries stay under their keys, and what is selected stays
there, also while readers are at it. -/
theorem reading_ends (s : σ) (d : Document) (hspares : Spares hooks ⟨d.ahead, s, d⟩) :
    ∃ turns r, enumRead hooks s d = some r ∧
      (∀ turns' r', Run hooks ⟨d.ahead, s, d⟩ turns' r' ↔ turns' = turns ∧ r' = r) ∧
      (turns.Pairwise fun t u ↦ t.index < u.index) ∧
      ((turns.filterMap (dispatched? hooks)).Pairwise fun a b ↦ a.2 < b.2) ∧
      (∀ t ∈ turns.dropLast, ∃ e, t.entry? = some e ∧ isEnd e = false) ∧
      (∀ t ∈ turns, d.Touches t.document) ∧ d.Touches r.2.2 ∧
      ∀ d', d.Touches d' → d.Kept d' ∧ (d.InBounds → d'.InBounds) := by
  obtain ⟨n, hfuel, hwithin⟩ := within_readFuel d
  obtain ⟨turns, r, hrun, hread⟩ := exists_run hspares hwithin (Nat.le_add_left n _)
  have hreached := hrun.touches hspares
  refine ⟨turns, r, ?_, fun turns' r' ↦ ⟨hrun.unique, ?_⟩, hrun.increasing, dispatched_increasing hrun.increasing,
    hrun.onward, hreached.1, hreached.2, fun d' ht ↦ ⟨ht.kept, fun h ↦ h.touches ht⟩⟩
  · rw [enumRead, hfuel]
    exact hread
  · rintro ⟨rfl, rfl⟩
    exact hrun

def leaving (module destination : String) : BlockHook Unit :=
  ⟨module, fun s d ↦ (.ok (), s, (d.prev?.getD d).select destination), fun s d ↦ (.ok (), s, d)⟩

def replacing (module key value : String) : BlockHook Unit where
  module
  read s d := if d.mode = .unique ∧ key ∈ d.keys then writeEntry key value s d else (.error (.stream .noSection), s, d)
  write s d := (.ok (), s, d)

theorem tame_leaving (module destination : String) : (leaving module destination).Tame := by
  intro s d
  change d.Touches ((d.prev?.getD d).select destination)
  cases hprev : d.prev? with
  | none => exact .single (.select destination)
  | some d' =>
    have hmoved : Act.prev.moved? d = some d' := hprev
    exact .tail (.single (touch_of_moved hmoved)) (.select destination)

theorem tame_replacing (module key value : String) : (replacing module key value).Tame := by
  intro s d
  rw [replacing]
  dsimp only
  split
  · next h =>
    rw [writeEntry]
    split
    · next hwrite => exact .single (touch_overwrite h.1 h.2 hwrite)
    · exact .refl
  · exact .refl

def unended (strength : String) : Document :=
  ofSections [⟨"1001", [("ModuleData1", "mail"), ("Unread", "2"), ("ModuleData1", "mail")]⟩,
    ⟨"1002", [("Name", "Arden"), ("ModuleData1", "buff"), ("Strength", strength), ("ModuleData1", "buff")]⟩]

theorem reading_ends_unended :
    let d := (unended "5").selectAt 0
    let last := { (unended "6").selectAt 1 with cursor := some 3 }
    d.InBounds ∧ enumRead [leaving "mail" "1002", replacing "buff" "Strength" "6"] () d = some (.ok (), (), last) ∧
      d.Touches last ∧ last.InBounds := by
  intro d last
  have htame : ∀ h ∈ [leaving "mail" "1002", replacing "buff" "Strength" "6"], h.Tame := by
    simp only [List.forall_mem_cons]
    exact ⟨tame_leaving _ _, tame_replacing _ _ _, nofun⟩
  have hopened : (unended "5").InBounds := inBounds_ofSections _
  have hbounds : d.InBounds := hopened.perform (.selectAt 0)
  have hread : enumRead [leaving "mail" "1002", replacing "buff" "Strength" "6"] () d = some (.ok (), (), last) := rfl
  obtain ⟨turns, r, hread', hrun, -, -, -, -, hlast, htouches⟩ := reading_ends () d (spares_of_tame htame _)
  obtain rfl : (.ok (), (), last) = r := Option.some.inj (hread.symm.trans hread')
  exact ⟨hbounds, hread, hlast, (htouches last hlast).2 hbounds⟩

end Document
end GameHost
