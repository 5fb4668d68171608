import GameHost.Proofs.Document.Cursor

namespace GameHost

theorem add_one_add_ofNat (n : UInt32) (k : ℕ) : n + 1 + .ofNat k = n + .ofNat (k + 1) := by
  rw [UInt32.ofNat_add, UInt32.add_comm (.ofNat k), ← UInt32.add_assoc]
  rfl

theorem ofNat_toNat_add_one (n : UInt32) : UInt32.ofNat (n.toNat + 1) = n + 1 := by
  rw [UInt32.ofNat_add, UInt32.ofNat_toNat]
  rfl

theorem toNat_add_ofNat {n : UInt32} {k : ℕ} (hroom : n.toNat + k < UInt32.size) :
    (n + .ofNat k).toNat = n.toNat + k := by
  have hk : k % 2 ^ 32 = k := Nat.mod_eq_of_lt (Nat.lt_of_le_of_lt (Nat.le_add_left k _) hroom)
  rw [UInt32.toNat_add, UInt32.toNat_ofNat', hk]
  exact Nat.mod_eq_of_lt hroom

structure Block where
  number : UInt32
  module : String
  entries : List Entry

namespace Block

def opening (b : Block) : Entry := (Document.blockKey ++ toString b.number, b.module)

def list (b : Block) : List Entry := b.opening :: b.entries

theorem startsWith_opening (b : Block) : Document.startsWith b.opening.1 Document.blockKey := by
  rw [Document.startsWith, opening, String.toList_append, List.isPrefixOf_iff_prefix]
  exact List.prefix_append _ _

theorem isMarker_opening (b : Block) : Document.isMarker b.opening.1 := by
  rw [Document.isMarker, b.startsWith_opening, Bool.true_or]

end Block

namespace Document

def endEntry : Entry := (endKey, "0")

theorem isMarker_endEntry : isMarker endEntry.1 := by decide

variable {d : Document}

theorem isSome_current? {i : ℕ} (hselected : d.selected = some i) (hopen : i < d.sections.length) :
    d.current?.isSome := by
  simp [current?, hselected, hopen]

theorem current?_write {d' : Document} {key value : String} (h : d.write key value = .ok d') :
    d'.current? = d.current?.map (Section.write d.mode key value) := by
  rw [write] at h
  split at h
  · cases h
  · next i hselected =>
    cases h
    simp [current?, hselected]

/-! ### Adding entries -/

def extend (d : Document) (es : List Entry) : Document :=
  match d.selected with
  | some i => { d with sections := d.sections.modify i fun s ↦ { s with entries := s.entries ++ es } }
  | none => d

def counting (d : Document) (n : UInt32) : Document := { d with blocks := n }

theorem counting_blocks (d : Document) : d.counting (d.blocks + .ofNat 0) = d :=
  congrArg d.counting d.blocks.add_zero

theorem extend_nil (d : Document) : d.extend [] = d := by
  rw [extend]
  split
  · simp only [List.append_nil]
    exact congrArg (fun sections ↦ ({ d with sections } : Document)) (List.modify_id _ _)
  · rfl

theorem extend_extend (d : Document) (es es' : List Entry) : (d.extend es).extend es' = d.extend (es ++ es') := by
  cases hselected : d.selected with
  | none => simp only [extend, hselected]
  | some i => simp only [extend, hselected, List.modify_modify_eq, Function.comp_def, List.append_assoc]

theorem current?_extend (d : Document) (es : List Entry) :
    (d.extend es).current? = d.current?.map fun s ↦ { s with entries := s.entries ++ es } := by
  cases hselected : d.selected with
  | none => simp only [extend, current?, hselected, Option.bind_none, Option.map_none]
  | some i => simp [extend, current?, hselected]

theorem entries_extend (hopen : d.current?.isSome) (es : List Entry) : (d.extend es).entries = d.entries ++ es := by
  obtain ⟨s, hs⟩ := Option.isSome_iff_exists.1 hopen
  rw [entries, entries, current?_extend, hs]
  rfl

theorem selected_extend (d : Document) (es : List Entry) : (d.extend es).selected = d.selected := by
  rw [extend]
  split <;> rfl

theorem mode_extend (d : Document) (es : List Entry) : (d.extend es).mode = d.mode := by
  rw [extend]
  split <;> rfl

theorem blocks_extend (d : Document) (es : List Entry) : (d.extend es).blocks = d.blocks := by
  rw [extend]
  split <;> rfl

theorem isSome_current?_extend (es : List Entry) : (d.extend es).current?.isSome = d.current?.isSome := by
  rw [current?_extend, Option.isSome_map]

theorem counting_extend (d : Document) (es : List Entry) (n : UInt32) :
    (d.extend es).counting n = (d.counting n).extend es := by
  cases hselected : d.selected with
  | none => simp only [extend, counting, hselected]
  | some i => simp only [extend, counting, hselected]

theorem write_duplicates (hmode : d.mode = .duplicates) (hopen : d.current?.isSome) (key value : String) :
    d.write key value = .ok (d.extend [(key, value)]) := by
  cases hselected : d.selected with
  | none => simp [current?, hselected] at hopen
  | some i =>
    simp only [write, extend, hselected, hmode]
    rfl

theorem writeEntry_eq {σ : Type} (hmode : d.mode = .duplicates) (hopen : d.current?.isSome) (key value : String)
    (s : σ) : writeEntry key value s d = (.ok (), s, d.extend [(key, value)]) := by
  simp only [writeEntry, write_duplicates hmode hopen]

end Document

/-! ### Writers -/

/-- What a writer does: it writes entries, hears each time whether that has worked, and stops. -/
inductive Writing (σ : Type)
  | stop (outcome : Except Error Unit) (after : σ)
  | write (e : Entry) (rest : Except Error Unit → Writing σ)

namespace Writing

variable {σ : Type}

def run : Writing σ → Document → Except Error Unit × σ × Document
  | stop outcome after, d => (outcome, after, d)
  | write e rest, d =>
    match d.write e.1 e.2 with
    | .ok d => (rest (.ok ())).run d
    | .error cause => (rest (.error cause)).run d

/-- What is written if that works. -/
def entries : Writing σ → List Entry
  | stop .. => []
  | write e rest => e :: (rest (.ok ())).entries

def outcome : Writing σ → Except Error Unit
  | stop outcome _ => outcome
  | write _ rest => (rest (.ok ())).outcome

def after : Writing σ → σ
  | stop _ after => after
  | write _ rest => (rest (.ok ())).after

theorem run_eq {d : Document} (w : Writing σ) (hmode : d.mode = .duplicates) (hopen : d.current?.isSome) :
    w.run d = (w.outcome, w.after, d.extend w.entries) := by
  induction w generalizing d with
  | stop outcome after => rw [run, entries, Document.extend_nil, Writing.outcome, Writing.after]
  | write e rest ih =>
    have hrest := ih (.ok ()) ((d.mode_extend [e]).trans hmode)
      (Document.isSome_current?_extend (d := d) [e] ▸ hopen)
    simp only [run, Document.write_duplicates hmode hopen, hrest, Document.extend_extend, List.singleton_append]
    rfl

def all (s : σ) : List Entry → Writing σ
  | [] => stop (.ok ()) s
  | e :: es => write e fun
    | .ok _ => all s es
    | .error cause => stop (.error cause) s

theorem entries_all (s : σ) (es : List Entry) : (all s es).entries = es := by
  induction es with
  | nil => rfl
  | cons e es ih => exact congrArg (e :: ·) ih

theorem outcome_all (s : σ) (es : List Entry) : (all s es).outcome = .ok () := by
  induction es with
  | nil => rfl
  | cons e es ih => exact ih

theorem after_all (s : σ) (es : List Entry) : (all s es).after = s := by
  induction es with
  | nil => rfl
  | cons e es ih => exact ih

end Writing

def BlockHook.WritesAs {σ : Type} (h : BlockHook σ) (w : σ → Writing σ) : Prop := ∀ s d, h.write s d = (w s).run d

/-- What hooks have written one after another, and how that has ended. -/
structure Turns (σ : Type) where
  blocks : List Block
  outcome : Except Error Unit
  after : σ

namespace Turns

variable {σ : Type} {writing : BlockHook σ → σ → Writing σ} {h : BlockHook σ} {hooks : List (BlockHook σ)}
  {n : UInt32} {s : σ}

/-- The hooks take turns until one of them fails. Their blocks are numbered from `n` on. -/
def of (writing : BlockHook σ → σ → Writing σ) : List (BlockHook σ) → UInt32 → σ → Turns σ
  | [], _, s => ⟨[], .ok (), s⟩
  | h :: hooks, n, s =>
    let w := writing h s
    let b : Block := ⟨n, h.module, w.entries⟩
    match w.outcome with
    | .error cause => ⟨[b], .error cause, w.after⟩
    | .ok _ =>
      let rest := of writing hooks (n + 1) w.after
      { rest with blocks := b :: rest.blocks }

/-- The blocks, with an end entry behind them unless a hook has failed. -/
def entries (t : Turns σ) : List Entry :=
  t.blocks.flatMap Block.list ++ match t.outcome with
    | .ok _ => [Document.endEntry]
    | .error _ => []

theorem of_failed {cause : Error} (hfails : (writing h s).outcome = .error cause) :
    of writing (h :: hooks) n s =
      ⟨[⟨n, h.module, (writing h s).entries⟩], .error cause, (writing h s).after⟩ := by
  simp only [of, hfails]

theorem of_wrote (hworks : (writing h s).outcome = .ok ()) :
    of writing (h :: hooks) n s =
      { of writing hooks (n + 1) (writing h s).after with
        blocks := ⟨n, h.module, (writing h s).entries⟩ :: (of writing hooks (n + 1) (writing h s).after).blocks } := by
  simp only [of, hworks]

theorem numbers_of (writing : BlockHook σ → σ → Writing σ) (hooks : List (BlockHook σ)) (n : UInt32) (s : σ) :
    (of writing hooks n s).blocks.map (·.number) =
      (List.range (of writing hooks n s).blocks.length).map fun k ↦ n + .ofNat k := by
  induction hooks generalizing n s with
  | nil => rfl
  | cons h hooks ih =>
    cases hends : (writing h s).outcome with
    | error cause =>
      rw [of_failed hends]
      exact congrArg ([·]) n.add_zero.symm
    | ok =>
      have hnumber (k : ℕ) : n + 1 + .ofNat k = n + .ofNat (k + 1) := add_one_add_ofNat n k
      simp only [of_wrote hends, List.map_cons, ih, List.length_cons, List.range_succ_eq_map, List.map_map,
        Function.comp_def, hnumber]
      exact congrArg (· :: _) n.add_zero.symm

theorem toNat_numbers_of (writing : BlockHook σ → σ → Writing σ) (hooks : List (BlockHook σ)) (s : σ)
    (hroom : n.toNat + (of writing hooks (n + 1) s).blocks.length < UInt32.size) :
    (of writing hooks (n + 1) s).blocks.map (·.number.toNat) =
      List.range' (n.toNat + 1) (of writing hooks (n + 1) s).blocks.length := by
  have hnumbers := congrArg (List.map UInt32.toNat) (numbers_of writing hooks (n + 1) s)
  rw [List.map_map, List.map_map] at hnumbers
  refine hnumbers.trans ?_
  rw [List.range'_eq_map_range]
  apply List.map_congr_left
  intro k hk
  have hlt := List.mem_range.1 hk
  show (n + 1 + .ofNat k).toNat = _
  rw [add_one_add_ofNat, toNat_add_ofNat (by omega)]
  omega

theorem modules_of (writing : BlockHook σ → σ → Writing σ) (hooks : List (BlockHook σ)) (n : UInt32) (s : σ) :
    (of writing hooks n s).blocks.map (·.module) <+: hooks.map (·.module) ∧
      ((of writing hooks n s).outcome = .ok () → (of writing hooks n s).blocks.length = hooks.length) := by
  induction hooks generalizing n s with
  | nil => exact ⟨List.nil_prefix, fun _ ↦ rfl⟩
  | cons h hooks ih =>
    cases hends : (writing h s).outcome with
    | error cause =>
      rw [of_failed hends]
      exact ⟨List.prefix_append [h.module] _, nofun⟩
    | ok =>
      obtain ⟨hmodules, hall⟩ := ih (n + 1) (writing h s).after
      rw [of_wrote hends, List.map_cons, List.map_cons, List.cons_prefix_cons, List.length_cons, List.length_cons]
      exact ⟨⟨rfl, hmodules⟩, fun hok ↦ congrArg (· + 1) (hall hok)⟩

end Turns

namespace Document

variable {σ : Type} {d : Document} {writing : BlockHook σ → σ → Writing σ} {hooks : List (BlockHook σ)}

def fill (d : Document) (b : Block) : Document := (d.counting b.number).extend b.list

theorem blocks_fill (b : Block) : (d.fill b).blocks = b.number := blocks_extend _ _

theorem mode_fill (b : Block) : (d.fill b).mode = d.mode := mode_extend (d.counting b.number) _

theorem isSome_current?_fill (b : Block) : (d.fill b).current?.isSome = d.current?.isSome := isSome_current?_extend _

theorem counting_fill (b : Block) (n : UInt32) (es : List Entry) :
    ((d.fill b).counting n).extend es = (d.counting n).extend (b.list ++ es) := by
  rw [fill, counting_extend, extend_extend]
  rfl

/-- One turn: the counter goes up, and the block of the hook is added as far as the hook gets. -/
theorem turn_eq {h : BlockHook σ} {w : σ → Writing σ} (hwrites : h.WritesAs w) (hmode : d.mode = .duplicates)
    (hopen : d.current?.isSome) (s : σ) :
    andThen (openBlock h.module) h.write s d =
      ((w s).outcome, (w s).after, d.fill ⟨d.blocks + 1, h.module, (w s).entries⟩) := by
  let opened := (d.counting (d.blocks + 1)).extend [(blockKey ++ toString (d.blocks + 1), h.module)]
  have hopens : openBlock h.module s d = (.ok (), s, opened) :=
    writeEntry_eq (d := d.counting (d.blocks + 1)) hmode hopen _ _ s
  have hmode' : opened.mode = .duplicates := (mode_extend (d.counting _) _).trans hmode
  have hopen' : opened.current?.isSome := by rwa [isSome_current?_extend]
  rw [andThen, hopens]
  show h.write s opened = _
  rw [hwrites, Writing.run_eq _ hmode' hopen', extend_extend]
  rfl

theorem writeBlocks_failed {h : BlockHook σ} {w : σ → Writing σ} {s : σ} {cause : Error} (hwrites : h.WritesAs w)
    (hmode : d.mode = .duplicates) (hopen : d.current?.isSome) (hends : (w s).outcome = .error cause) :
    writeBlocks (h :: hooks) s d =
      (.error cause, (w s).after, d.fill ⟨d.blocks + 1, h.module, (w s).entries⟩) := by
  rw [writeBlocks, andThen, turn_eq hwrites hmode hopen, hends]

theorem writeBlocks_wrote {h : BlockHook σ} {w : σ → Writing σ} {s : σ} (hwrites : h.WritesAs w)
    (hmode : d.mode = .duplicates) (hopen : d.current?.isSome) (hends : (w s).outcome = .ok ()) :
    writeBlocks (h :: hooks) s d =
      writeBlocks hooks (w s).after (d.fill ⟨d.blocks + 1, h.module, (w s).entries⟩) := by
  rw [writeBlocks, andThen, turn_eq hwrites hmode hopen, hends]

theorem writeBlocks_turns (hwrites : ∀ h ∈ hooks, h.WritesAs (writing h)) (hmode : d.mode = .duplicates)
    (hopen : d.current?.isSome) (s : σ) {t : Turns σ} (ht : Turns.of writing hooks (d.blocks + 1) s = t) :
    writeBlocks hooks s d =
      (t.outcome, t.after, (d.counting (d.blocks + .ofNat t.blocks.length)).extend t.entries) := by
  induction hooks generalizing d s t with
  | nil =>
    subst ht
    show writeEntry endKey "0" s d = (.ok (), s, (d.counting (d.blocks + .ofNat 0)).extend [endEntry])
    rw [writeEntry_eq hmode hopen, counting_blocks, endEntry]
  | cons h hooks ih =>
    have hfirst := hwrites h List.mem_cons_self
    cases hends : (writing h s).outcome with
    | error cause =>
      rw [Turns.of_failed hends] at ht
      subst ht
      rw [writeBlocks_failed hfirst hmode hopen hends]
      simp [Turns.entries, fill]
    | ok =>
      let filled := d.fill ⟨d.blocks + 1, h.module, (writing h s).entries⟩
      -- The other hooks go on from what this turn has left; their blocks stand behind this one.
      have hrest := ih (d := filled) (fun h hh ↦ hwrites h (List.mem_cons_of_mem _ hh)) ((mode_fill _).trans hmode)
        (by rwa [isSome_current?_fill]) (writing h s).after rfl
      rw [blocks_fill] at hrest
      generalize hrests : Turns.of writing hooks (d.blocks + 1 + 1) (writing h s).after = rest at hrest
      have hcount := add_one_add_ofNat d.blocks rest.blocks.length
      rw [Turns.of_wrote hends, hrests] at ht
      subst ht
      rw [writeBlocks_wrote hfirst hmode hopen hends, hrest, counting_fill, hcount]
      simp only [Turns.entries, List.flatMap_cons, List.append_assoc, List.length_cons]

theorem enumWrite_turns (hwrites : ∀ h ∈ hooks, h.WritesAs (writing h)) (hopen : d.current?.isSome) (s : σ)
    {t : Turns σ} (ht : Turns.of writing hooks (d.blocks + 1) s = t) :
    enumWrite hooks s d =
      (t.outcome, t.after, (d.counting (d.blocks + .ofNat t.blocks.length)).extend t.entries) := by
  have hwritten := writeBlocks_turns (d := { d with mode := .duplicates }) hwrites rfl hopen s ht
  simp only [enumWrite, hwritten]
  cases hselected : d.selected with
  | none => simp only [extend, counting, hselected]
  | some i => simp only [extend, counting, hselected]

theorem writeEntry_none (hnone : d.selected = none) (key value : String) (s : σ) :
    writeEntry key value s d = (.error (.stream .noSection), s, d) := by
  simp only [writeEntry, write, hnone]

theorem openBlock_none (hnone : d.selected = none) (module : String) (s : σ) :
    openBlock module s d = (.error (.stream .noSection), s, d.counting (d.blocks + 1)) :=
  writeEntry_none (d := d.counting (d.blocks + 1)) hnone _ _ s

theorem writeBlocks_none (hnone : d.selected = none) (hooks : List (BlockHook σ)) (s : σ) :
    writeBlocks hooks s d = (.error (.stream .noSection), s, d.counting (d.blocks + .ofNat (min 1 hooks.length))) := by
  cases hooks with
  | nil => rw [writeBlocks, writeEntry_none hnone, List.length_nil, Nat.min_zero, counting_blocks]
  | cons h hooks =>
    have hopens := openBlock_none hnone h.module s
    have hcount : min 1 (h :: hooks).length = 1 := Nat.min_eq_left (Nat.le_add_left 1 hooks.length)
    -- The first block cannot be opened, so that no writer is called.
    rw [writeBlocks, andThen, andThen, hopens, hcount]
    rfl

/-! ### The largest counter -/

/-- Writes as `writeBlocks` does. There is no answer if the counter would have to pass its largest number. -/
def writeBlocks? : List (BlockHook σ) → σ → Document → Option (Except Error Unit × σ × Document)
  | [], s, d => some (writeEntry endKey "0" s d)
  | h :: hooks, s, d =>
    if d.blocks.toNat + 1 < UInt32.size then
      match andThen (openBlock h.module) h.write s d with
      | (.ok _, s, d) => writeBlocks? hooks s d
      | stopped => some stopped
    else none

def enumWrite? (hooks : List (BlockHook σ)) (s : σ) (d : Document) : Option (Except Error Unit × σ × Document) :=
  (writeBlocks? hooks s { d with mode := .duplicates }).map fun (outcome, s, after) ↦
    (outcome, s, { after with mode := d.mode })

theorem writeBlocks?_turns (hwrites : ∀ h ∈ hooks, h.WritesAs (writing h)) (hmode : d.mode = .duplicates)
    (hopen : d.current?.isSome) (s : σ) {t : Turns σ} (ht : Turns.of writing hooks (d.blocks + 1) s = t) :
    writeBlocks? hooks s d =
      if d.blocks.toNat + t.blocks.length < UInt32.size then some (writeBlocks hooks s d) else none := by
  induction hooks generalizing d s t with
  | nil =>
    subst ht
    exact (if_pos d.blocks.toNat_lt_size).symm
  | cons h hooks ih =>
    have hfirst := hwrites h List.mem_cons_self
    have hturn := turn_eq hfirst hmode hopen s
    cases hends : (writing h s).outcome with
    | error cause =>
      rw [Turns.of_failed hends] at ht
      subst ht
      rw [writeBlocks?, hturn, hends, writeBlocks_failed hfirst hmode hopen hends]
      rfl
    | ok =>
      let filled := d.fill ⟨d.blocks + 1, h.module, (writing h s).entries⟩
      have hrest := ih (d := filled) (fun h hh ↦ hwrites h (List.mem_cons_of_mem _ hh)) ((mode_fill _).trans hmode)
        (by rwa [isSome_current?_fill]) (writing h s).after rfl
      rw [blocks_fill] at hrest
      generalize hrests : Turns.of writing hooks (d.blocks + 1 + 1) (writing h s).after = rest at hrest
      rw [Turns.of_wrote hends, hrests] at ht
      subst ht
      rw [writeBlocks?, hturn, hends, writeBlocks_wrote hfirst hmode hopen hends]
      show (if _ then writeBlocks? hooks _ filled else none) = if _ then some (writeBlocks hooks _ filled) else none
      by_cases hroom : d.blocks.toNat + 1 < UInt32.size
      · have hnext : (d.blocks + 1).toNat = d.blocks.toNat + 1 := toNat_add_ofNat (k := 1) hroom
        rw [if_pos hroom, hrest, hnext, List.length_cons, Nat.add_assoc, Nat.add_comm 1]
      · have hfull : ¬ d.blocks.toNat + (rest.blocks.length + 1) < UInt32.size := by omega
        rw [if_neg hroom, List.length_cons, if_neg hfull]

theorem writeBlocks?_none (hnone : d.selected = none) (hooks : List (BlockHook σ)) (s : σ) :
    writeBlocks? hooks s d =
      if d.blocks.toNat + min 1 hooks.length < UInt32.size then some (writeBlocks hooks s d) else none := by
  cases hooks with
  | nil => exact (if_pos d.blocks.toNat_lt_size).symm
  | cons h hooks =>
    have hopens := openBlock_none hnone h.module s
    have hcount : min 1 (h :: hooks).length = 1 := Nat.min_eq_left (Nat.le_add_left 1 hooks.length)
    rw [writeBlocks?, andThen, hopens, writeBlocks, andThen, andThen, hopens, hcount]

theorem enumWrite?_eq {room : Prop} [Decidable room] {s : σ}
    (hblocks : writeBlocks? hooks s { d with mode := .duplicates } =
      if room then some (writeBlocks hooks s { d with mode := .duplicates }) else none) :
    enumWrite? hooks s d = if room then some (enumWrite hooks s d) else none := by
  rw [enumWrite?, hblocks]
  split <;> rfl

/-- Whatever the mode is and whatever the section holds, hooks only add to it: their blocks, numbered on from the
counter, and an end entry if none of them fails. With no section selected none of them is called. The counter wraps
around; a writer that checks it does the same as long as there is room for all the blocks. -/
theorem enumWrite_only_adds (hooks : List (BlockHook σ)) (s : σ) (d : Document) :
    (d.selected = none →
      enumWrite hooks s d =
        (.error (.stream .noSection), s, { d with blocks := d.blocks + .ofNat (min 1 hooks.length) }) ∧
      enumWrite? hooks s d =
        if d.blocks.toNat + min 1 hooks.length < UInt32.size then some (enumWrite hooks s d) else none) ∧
    ∀ i writing, d.selected = some i → i < d.sections.length → (∀ h ∈ hooks, h.WritesAs (writing h)) →
      ∃ t, Turns.of writing hooks (d.blocks + 1) s = t ∧
        t.blocks.map (·.number) = (List.range t.blocks.length).map (fun k ↦ d.blocks + 1 + .ofNat k) ∧
        (d.blocks.toNat + t.blocks.length < UInt32.size →
          t.blocks.map (·.number.toNat) = List.range' (d.blocks.toNat + 1) t.blocks.length) ∧
        t.blocks.map (·.module) <+: hooks.map (·.module) ∧
        (t.outcome = .ok () → t.blocks.length = hooks.length) ∧
        enumWrite hooks s d = (t.outcome, t.after, { d with
          blocks := d.blocks + .ofNat t.blocks.length
          sections := d.sections.modify i fun c ↦ { c with entries := c.entries ++ t.entries } }) ∧
        enumWrite? hooks s d =
          if d.blocks.toNat + t.blocks.length < UInt32.size then some (enumWrite hooks s d) else none := by
  constructor
  · intro hnone
    refine ⟨?_, enumWrite?_eq (writeBlocks?_none (d := { d with mode := .duplicates }) hnone hooks s)⟩
    rw [enumWrite, writeBlocks_none (d := { d with mode := .duplicates }) hnone]
    rfl
  · intro i writing hselected hi hwrites
    have hopen := isSome_current? hselected hi
    obtain ⟨hmodules, hall⟩ := Turns.modules_of writing hooks (d.blocks + 1) s
    refine ⟨_, rfl, Turns.numbers_of writing hooks _ s, Turns.toNat_numbers_of writing hooks s, hmodules, hall, ?_,
      enumWrite?_eq (writeBlocks?_turns (d := { d with mode := .duplicates }) hwrites rfl hopen s rfl)⟩
    rw [enumWrite_turns hwrites hopen s rfl, extend, counting]
    simp only [hselected]

def report (outcome : Except Error Unit) : List Entry → Writing Unit
  | [] => .stop outcome ()
  | e :: es => .write e fun _ ↦ report outcome es

def reports (module : String) : Writing Unit :=
  if module = "buff" then report (.ok ()) [("Count", "3"), ("Count", "4")]
  else report (.error (.stream (.custom "mail is down"))) [("Count", "5")]

def reporters : List (BlockHook Unit) := ["buff", "mail", "shop"].map fun module ↦
  { module, read := fun s d ↦ (.ok (), s, d), write := fun _ ↦ (reports module).run }

def desk : Document :=
  ⟨[⟨"1001", [("Count", "1"), ("ModuleData1", "buff"), ("ModuleData2", "mail")]⟩, ⟨"1002", [("Count", "2")]⟩],
    some 0, some 0, 2, .unique⟩

/-- There is room for one more block. -/
def worn : Document := { desk with selected := some 1, blocks := 4294967294 }

theorem enumWrite_only_adds_unique :
    enumWrite reporters () desk = (.error (.stream (.custom "mail is down")), (), { desk with
      blocks := 4
      sections := [⟨"1001", [("Count", "1"), ("ModuleData1", "buff"), ("ModuleData2", "mail"),
        ("ModuleData3", "buff"), ("Count", "3"), ("Count", "4"), ("ModuleData4", "mail"), ("Count", "5")]⟩,
        ⟨"1002", [("Count", "2")]⟩] }) ∧
    enumWrite reporters () worn = (.error (.stream (.custom "mail is down")), (), { worn with
      blocks := 0
      sections := [⟨"1001", [("Count", "1"), ("ModuleData1", "buff"), ("ModuleData2", "mail")]⟩,
        ⟨"1002", [("Count", "2"), ("ModuleData4294967295", "buff"), ("Count", "3"), ("Count", "4"),
          ("ModuleData0", "mail"), ("Count", "5")]⟩] }) ∧
    enumWrite? reporters () worn = none ∧
    enumWrite reporters () { desk with selected := none } =
      (.error (.stream .noSection), (), { desk with selected := none, blocks := 3 }) := by
  have hwrites : ∀ h ∈ reporters, h.WritesAs fun _ ↦ reports h.module := by
    intro h hh
    obtain ⟨module, -, rfl⟩ := List.mem_map.1 hh
    exact fun _ _ ↦ rfl
  obtain ⟨t, ht, -, -, -, -, hwritten, -⟩ := (enumWrite_only_adds reporters () desk).2 0
    (fun h _ ↦ reports h.module) rfl (by decide) hwrites
  obtain ⟨t', ht', -, -, -, -, hwrapped, hchecked⟩ := (enumWrite_only_adds reporters () worn).2 1
    (fun h _ ↦ reports h.module) rfl (by decide) hwrites
  refine ⟨?_, ?_, ?_, ((enumWrite_only_adds reporters () { desk with selected := none }).1 rfl).1⟩
  · rw [hwritten, ← ht]
    rfl
  · rw [hwrapped, ← ht']
    rfl
  · rw [hchecked, ← ht']
    rfl

end Document
end GameHost
