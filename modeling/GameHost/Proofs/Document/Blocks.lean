import GameHost.Proofs.Document.Writing
import Mathlib.Data.List.Nodup

namespace GameHost

namespace Document

variable {σ : Type} {d : Document}

/-! ### Writing -/

def putAll : List Entry → BlockAction σ
  | [] => fun s d ↦ (.ok (), s, d)
  | e :: es => andThen (writeEntry e.1 e.2) (putAll es)

theorem entries_congr {c d : Document} (hsections : c.sections = d.sections) (hselected : c.selected = d.selected) :
    c.entries = d.entries := by
  rw [Document.entries, Document.entries, current?, current?, hsections, hselected]

theorem putAll_eq (es : List Entry) (s : σ) (d : Document) : putAll es s d = (Writing.all s es).run d := by
  induction es generalizing d with
  | nil => rfl
  | cons e es ih =>
    simp only [putAll, andThen, writeEntry, Writing.all, Writing.run]
    cases d.write e.1 e.2 with
    | error cause => rfl
    | ok d' => exact ih d'

end Document

def BlockHook.Writes {σ : Type} (h : BlockHook σ) (entries : σ → List Entry) : Prop :=
  ∀ s d, h.write s d = Document.putAll (entries s) s d

/-- The hook reads as the reader does, and does not fail. -/
def BlockHook.Reads {σ : Type} (h : BlockHook σ) (r : Reader σ) : Prop :=
  ∀ s d, ∃ after last, h.read s d = (.ok (), after, last) ∧ r.Runs (r.start s) d after last

namespace Document

variable {σ : Type} {d : Document}

def blocksFrom (entries : BlockHook σ → σ → List Entry) (s : σ) (n : Nat) (ws : List (BlockHook σ)) :
    List Block :=
  (ws.zipIdx n).map fun (w, n) ↦ ⟨.ofNat n, w.module, entries w s⟩

theorem turns_blocksFrom (entries : BlockHook σ → σ → List Entry) (s : σ) (n : Nat) (ws : List (BlockHook σ)) :
    Turns.of (fun w s ↦ .all s (entries w s)) ws (.ofNat n) s = ⟨blocksFrom entries s n ws, .ok (), s⟩ := by
  induction ws generalizing n with
  | nil => rfl
  | cons w ws ih =>
    have hnext : UInt32.ofNat n + 1 = .ofNat (n + 1) := (UInt32.ofNat_add n 1).symm
    rw [Turns.of_wrote (Writing.outcome_all s _), Writing.after_all, hnext, ih, Writing.entries_all, blocksFrom,
      blocksFrom, List.zipIdx_cons, List.map_cons]

theorem enumWrite_eq {entries : BlockHook σ → σ → List Entry} {ws : List (BlockHook σ)}
    (hwrite : ∀ w ∈ ws, w.Writes (entries w)) (hopen : d.current?.isSome) (s : σ) :
    enumWrite ws s d = (.ok (), s, (d.counting (d.blocks + .ofNat ws.length)).extend
      ((blocksFrom entries s (d.blocks.toNat + 1) ws).flatMap Block.list ++ [endEntry])) := by
  have hwrites : ∀ w ∈ ws, w.WritesAs fun s ↦ .all s (entries w s) := by
    intro w hw s d
    rw [hwrite w hw, putAll_eq]
  have hturns := turns_blocksFrom entries s (d.blocks.toNat + 1) ws
  rw [ofNat_toNat_add_one] at hturns
  have hlength : (blocksFrom entries s (d.blocks.toNat + 1) ws).length = ws.length := by
    rw [blocksFrom, List.length_map, List.length_zipIdx]
  rw [enumWrite_turns hwrites hopen s hturns, hlength]
  rfl

/-! ### Reading -/

variable {rs : List (BlockHook σ)} {fuel i : Nat} {s : σ}

theorem readBlocks_plain {e : Entry} (hat : d.entries[i]? = some e) (hplain : isMarker e.1 = false) :
    readBlocks rs (fuel + 1) i s d = readBlocks rs fuel (max (d.cursor.getD i) i + 1) s d := by
  obtain ⟨key, value⟩ := e
  rw [isMarker, Bool.or_eq_false_iff] at hplain
  simp only [readBlocks, hat, hplain, Bool.false_eq_true, if_false]

theorem readBlocks_done (hat : d.entries[i]? = none) : readBlocks rs (fuel + 1) i s d = some (.ok (), s, d) := by
  simp only [readBlocks, hat]

theorem startsWith_endKey_of_block {key : String} (h : startsWith key blockKey) : startsWith key endKey = false := by
  rw [startsWith, List.isPrefixOf_iff_prefix] at h
  obtain ⟨rest, hkey⟩ := h
  rw [startsWith, ← hkey]
  rfl

theorem readBlocks_end {e : Entry} (hat : d.entries[i]? = some e) (hend : startsWith e.1 endKey) :
    readBlocks rs (fuel + 1) i s d = some (.ok (), s, { d with cursor := some i }) := by
  have hblock : ¬ startsWith e.1 blockKey := by
    intro hblock
    rw [startsWith_endKey_of_block hblock] at hend
    cases hend
  obtain ⟨key, value⟩ := e
  simp only [readBlocks, hat, hblock, hend, Bool.false_eq_true, if_false, if_true]

theorem readBlocks_passed {e : Entry} (hat : d.entries[i]? = some e) (hblock : startsWith e.1 blockKey)
    (hnone : rs.find? (·.module == e.2) = none) :
    readBlocks rs (fuel + 1) i s d = readBlocks rs fuel (i + 1) s { d with cursor := some i } := by
  obtain ⟨key, value⟩ := e
  simp only [readBlocks, hat, hblock, if_true, hnone, Option.getD_some, Nat.max_self]

theorem readBlocks_handed {e : Entry} {h : BlockHook σ} {after : σ} {last : Document}
    (hat : d.entries[i]? = some e) (hblock : startsWith e.1 blockKey)
    (hsome : rs.find? (·.module == e.2) = some h)
    (hread : h.read s { d with cursor := some i } = (.ok (), after, last)) :
    readBlocks rs (fuel + 1) i s d = readBlocks rs fuel (max (last.cursor.getD i) i + 1) after last := by
  obtain ⟨key, value⟩ := e
  simp only [readBlocks, hat, hblock, if_true, hsome, hread]

theorem readBlocks_failed {e : Entry} {h : BlockHook σ} {after : σ} {last : Document} {cause : Error}
    (hat : d.entries[i]? = some e) (hblock : startsWith e.1 blockKey)
    (hsome : rs.find? (·.module == e.2) = some h)
    (hread : h.read s { d with cursor := some i } = (.error cause, after, last)) :
    readBlocks rs (fuel + 1) i s d = some (.error cause, after, last) := by
  obtain ⟨key, value⟩ := e
  simp only [readBlocks, hat, hblock, if_true, hsome, hread]

theorem readBlocks_skip {es rest : List Entry} (hplain : ∀ e ∈ es, isMarker e.1 = false)
    (hat : d.entries.drop i = es ++ rest) (hcursor : ∀ c ∈ d.cursor, c ≤ i) :
    readBlocks rs (fuel + es.length) i s d = readBlocks rs fuel (i + es.length) s d := by
  induction es generalizing i with
  | nil => rfl
  | cons e es ih =>
    obtain ⟨hhere, hrest⟩ := getElem?_of_drop hat
    have hmax : max (d.cursor.getD i) i = i := by
      cases hc : d.cursor with
      | none => exact Nat.max_self i
      | some c => exact Nat.max_eq_right (hcursor c hc)
    have hskip := ih (fun e he ↦ hplain e (List.mem_cons_of_mem _ he)) hrest
      (fun c hc ↦ Nat.le_succ_of_le (hcursor c hc))
    rw [List.length_cons, ← Nat.add_assoc, readBlocks_plain hhere (hplain e List.mem_cons_self), hmax, hskip,
      Nat.add_assoc, Nat.add_comm 1]

/-- However far into a block a reader has gone, what the loop comes to next is behind the block. -/
theorem readBlocks_rest {b : Block} {rest : List Entry} {m : ℕ} (hplain : ∀ e ∈ b.entries, isMarker e.1 = false)
    (hat : d.entries.drop i = b.list ++ rest) (hm : m ≤ b.entries.length) :
    readBlocks rs (fuel + (b.entries.drop m).length) (i + m + 1) s { d with cursor := some (i + m) } =
      readBlocks rs fuel (i + b.list.length) s { d with cursor := some (i + m) } := by
  have hleft : d.entries.drop (i + m + 1) = b.entries.drop m ++ rest := by
    rw [Nat.add_assoc, Nat.add_comm m, ← List.drop_drop, ← List.drop_drop, hat, Block.list, List.cons_append,
      List.drop_one, List.tail_cons, List.drop_append_of_le_length hm]
  have hend : i + m + 1 + (b.entries.drop m).length = i + b.list.length := by
    rw [List.length_drop, Block.list, List.length_cons]
    omega
  rw [← hend]
  exact readBlocks_skip (d := { d with cursor := some (i + m) }) (fun e he ↦ hplain e (List.mem_of_mem_drop he)) hleft
    (by simp)

theorem upcoming_at {b : Block} {rest : List Entry} (hplain : ∀ e ∈ b.entries, isMarker e.1 = false)
    (hrest : ∀ e ∈ rest.head?, isMarker e.1) (hat : d.entries.drop i = b.list ++ rest) :
    ({ d with cursor := some i } : Document).upcoming = b.entries := by
  have hbehind : d.entries.drop (i + 1) = b.entries ++ rest := (getElem?_of_drop hat).2
  show (d.entries.drop (i + 1)).takeWhile _ = _
  rw [hbehind, takeWhile_plain hplain hrest]

def calls (rs : List (BlockHook σ)) (blocks : List Block) : List (Block × BlockHook σ) :=
  blocks.filterMap fun b ↦ (rs.find? (·.module == b.module)).map (b, ·)

/-- What readers come to that see their blocks one after another. -/
inductive Loads (reader : BlockHook σ → Reader σ) : List (Block × BlockHook σ) → σ → σ → Prop
  | nil {s : σ} : Loads reader [] s s
  | cons {b : Block} {r : BlockHook σ} {rest : List (Block × BlockHook σ)} {s t u : σ}
      (hsees : (reader r).Sees ((reader r).start s) (some b.opening) b.entries t) (hrest : Loads reader rest t u) :
      Loads reader ((b, r) :: rest) s u

variable {reader : BlockHook σ → Reader σ}

/-- One step of the loop at a block: if it has a reader, that sees the block and stops somewhere in it. -/
theorem readBlocks_turn (hread : ∀ r ∈ rs, r.Reads (reader r)) {b : Block} {rest : List Entry}
    (hplain : ∀ e ∈ b.entries, isMarker e.1 = false) (hrest : ∀ e ∈ rest.head?, isMarker e.1)
    (hat : d.entries.drop i = b.list ++ rest) :
    ∃ t, ∃ m ≤ b.entries.length,
      (∀ fuel, readBlocks rs (fuel + 1) i s d =
        readBlocks rs fuel (i + m + 1) t { d with cursor := some (i + m) }) ∧
      ∀ blocks u, Loads reader (calls rs blocks) t u → Loads reader (calls rs (b :: blocks)) s u := by
  have hhere : d.entries[i]? = some b.opening := (getElem?_of_drop hat).1
  cases hreader : rs.find? (·.module == b.module) with
  | none =>
    refine ⟨s, 0, Nat.zero_le _, fun _ ↦ readBlocks_passed hhere b.startsWith_opening hreader, ?_⟩
    intro blocks u hloads
    rwa [calls, List.filterMap_cons, hreader]
  | some r =>
    let called : Document := { d with cursor := some i }
    have hentry : entry? called = some b.opening := hhere
    obtain ⟨t, last, hcall, hruns⟩ := hread r (List.mem_of_find?_eq_some hreader) s called
    obtain ⟨hsees, m, hm, hlast⟩ := hruns.sees
    rw [hentry, upcoming_at hplain hrest hat] at hsees
    rw [upcoming_at hplain hrest hat] at hm
    rw [advance_of_cursor called rfl] at hlast
    refine ⟨t, m, hm, ?_, ?_⟩
    · intro fuel
      rw [readBlocks_handed hhere b.startsWith_opening hreader hcall, hlast, Option.getD_some,
        Nat.max_eq_left (Nat.le_add_right i m)]
    · intro blocks u hloads
      rw [calls, List.filterMap_cons, hreader]
      exact .cons hsees hloads

theorem isMarker_head_blocks (blocks : List Block) :
    ∀ e ∈ (blocks.flatMap Block.list ++ [endEntry]).head?, isMarker e.1 := by
  cases blocks with
  | nil => simp [isMarker_endEntry]
  | cons b blocks => simp [Block.list, b.isMarker_opening]

theorem readBlocks_blocks (hread : ∀ r ∈ rs, r.Reads (reader r)) {blocks : List Block}
    (hplain : ∀ b ∈ blocks, ∀ e ∈ b.entries, isMarker e.1 = false)
    (hat : d.entries.drop i = blocks.flatMap Block.list ++ [endEntry]) (hfuel : d.entries.length ≤ i + fuel) :
    ∃ t, readBlocks rs fuel i s d = some (.ok (), t, { d with cursor := some (d.entries.length - 1) }) ∧
      Loads reader (calls rs blocks) s t := by
  induction blocks generalizing d i fuel s with
  | nil =>
    obtain ⟨hhere, hrest⟩ := getElem?_of_drop hat
    have hlt := (List.getElem?_eq_some_iff.1 hhere).1
    have hlast : d.entries.length - 1 = i := by
      rw [List.drop_eq_nil_iff] at hrest
      omega
    obtain ⟨fuel, rfl⟩ : ∃ n, fuel = n + 1 := ⟨fuel - 1, by omega⟩
    rw [readBlocks_end hhere (by decide), hlast]
    exact ⟨s, rfl, .nil⟩
  | cons b blocks ih =>
    have hplain' := hplain b List.mem_cons_self
    rw [List.flatMap_cons, List.append_assoc] at hat
    have hbehind : d.entries.drop (i + b.list.length) = blocks.flatMap Block.list ++ [endEntry] := by
      rw [← List.drop_drop, hat, List.drop_left]
    have hlength : i + b.entries.length < d.entries.length := by
      have hdrop := congrArg List.length hat
      rw [List.length_drop, List.length_append, Block.list, List.length_cons] at hdrop
      omega
    obtain ⟨t, m, hm, hturn, hloads⟩ := readBlocks_turn hread hplain' (isMarker_head_blocks blocks) hat
    -- The block takes one step, and each entry that its reader has left another one.
    obtain ⟨fuel, rfl⟩ : ∃ n, fuel = n + (b.entries.drop m).length + 1 := by
      refine ⟨fuel - (b.entries.drop m).length - 1, ?_⟩
      rw [List.length_drop]
      omega
    have hfuel' : d.entries.length ≤ i + b.list.length + fuel := by
      rw [List.length_drop] at hfuel
      rw [Block.list, List.length_cons]
      omega
    obtain ⟨u, hread', hloads'⟩ := ih (d := { d with cursor := some (i + m) })
      (fun b hb ↦ hplain b (List.mem_cons_of_mem _ hb)) hbehind hfuel'
    refine ⟨u, ?_, hloads _ _ hloads'⟩
    rw [hturn, readBlocks_rest hplain' hat hm, hread']
    rfl

/-! ### What was written comes back -/

theorem length_entries_lt_readFuel (d : Document) : d.entries.length < d.readFuel := by
  have hroom : 0 < UInt32.size := by decide
  cases hcurrent : d.current? with
  | none =>
    rw [entries, hcurrent, readFuel]
    exact Nat.add_pos_right _ hroom
  | some s =>
    obtain ⟨i, -, hat⟩ := Option.bind_eq_some_iff.1 hcurrent
    have hmem : s.entries.length ∈ d.sections.map fun s : Section ↦ s.entries.length :=
      List.mem_map_of_mem (List.mem_of_getElem? hat)
    rw [entries, hcurrent, readFuel, List.foldl_max]
    have hmax := List.le_max?_getD_of_mem hmem (k := 0)
    simp only [Option.map_some, Option.getD_some]
    omega

theorem enumRead_blocks (hread : ∀ r ∈ rs, r.Reads (reader r)) {own : List Entry} {blocks : List Block}
    (hown : ∀ e ∈ own, isMarker e.1 = false) (hplain : ∀ b ∈ blocks, ∀ e ∈ b.entries, isMarker e.1 = false)
    (hat : d.entries.drop d.ahead = own ++ (blocks.flatMap Block.list ++ [endEntry])) :
    ∃ t, enumRead rs s d = some (.ok (), t, { d with cursor := some (d.entries.length - 1) }) ∧
      Loads reader (calls rs blocks) s t := by
  have hlength := length_entries_lt_readFuel d
  have hown' : own.length ≤ d.entries.length - d.ahead := by
    rw [← List.length_drop, hat, List.length_append]
    exact Nat.le_add_right _ _
  obtain ⟨fuel, hfuel⟩ : ∃ n, d.readFuel = n + own.length := ⟨d.readFuel - own.length, by omega⟩
  have hbehind : d.entries.drop (d.ahead + own.length) = blocks.flatMap Block.list ++ [endEntry] := by
    rw [← List.drop_drop, hat, List.drop_left]
  rw [enumRead, hfuel, readBlocks_skip hown hat (le_ahead d)]
  exact readBlocks_blocks hread hplain hbehind (by omega)

/-- Each module that wrote a block and has a reader is called once, in the order of the blocks, and gets its own
block. -/
structure Handed (entries : BlockHook σ → σ → List Entry) (s : σ) (ws rs : List (BlockHook σ))
    (calls : List (Block × BlockHook σ)) : Prop where
  inOrder : calls.map (·.2.module) = (ws.map (·.module)).filter (· ∈ rs.map (·.module))
  once : (calls.map (·.2.module)).Nodup
  own {b r} (h : (b, r) ∈ calls) :
    r ∈ rs ∧ ∃ w ∈ ws, w.module = r.module ∧ b.module = w.module ∧ b.entries = entries w s
  each {w r} (hw : w ∈ ws) (hr : r ∈ rs) (hmodule : w.module = r.module) : ∃ b, (b, r) ∈ calls

theorem find?_module_eq_some (hdistinct : (rs.map (·.module)).Nodup) {module : String} {r : BlockHook σ} :
    rs.find? (·.module == module) = some r ↔ r ∈ rs ∧ r.module = module := by
  constructor
  · intro hfind
    have hmodule := List.find?_some hfind
    exact ⟨List.mem_of_find?_eq_some hfind, eq_of_beq hmodule⟩
  · rintro ⟨hmem, rfl⟩
    cases hfind : rs.find? (·.module == r.module) with
    | none => exact absurd (beq_self_eq_true r.module) (List.find?_eq_none.1 hfind r hmem)
    | some r' =>
      have hmodule := List.find?_some hfind
      rw [List.inj_on_of_nodup_map hdistinct (List.mem_of_find?_eq_some hfind) hmem (eq_of_beq hmodule)]

theorem mem_calls (hdistinct : (rs.map (·.module)).Nodup) {blocks : List Block} {b : Block} {r : BlockHook σ} :
    (b, r) ∈ calls rs blocks ↔ b ∈ blocks ∧ r ∈ rs ∧ r.module = b.module := by
  simp only [calls, List.mem_filterMap, Option.map_eq_some_iff, find?_module_eq_some hdistinct, Prod.mk.injEq]
  constructor
  · rintro ⟨b, hb, r, hr, rfl, rfl⟩
    exact ⟨hb, hr⟩
  · rintro ⟨hb, hr⟩
    exact ⟨b, hb, r, hr, rfl, rfl⟩

theorem map_module_calls (blocks : List Block) :
    (calls rs blocks).map (·.2.module) = (blocks.map (·.module)).filter (· ∈ rs.map (·.module)) := by
  induction blocks with
  | nil => rfl
  | cons b blocks ih =>
    rw [calls, List.filterMap_cons, List.map_cons, List.filter_cons]
    cases hreader : rs.find? (·.module == b.module) with
    | none =>
      have habsent : b.module ∉ rs.map (·.module) := by simpa using hreader
      rw [if_neg (by simpa using habsent)]
      exact ih
    | some r =>
      have hmodule := List.find?_some hreader
      have hmem : b.module ∈ rs.map (·.module) := by
        rw [← eq_of_beq hmodule]
        exact List.mem_map_of_mem (List.mem_of_find?_eq_some hreader)
      rw [if_pos (by simpa using hmem), Option.map_some, List.map_cons, eq_of_beq hmodule]
      exact congrArg _ ih

theorem map_module_blocksFrom (entries : BlockHook σ → σ → List Entry) (n : ℕ) (ws : List (BlockHook σ)) :
    (blocksFrom entries s n ws).map (·.module) = ws.map (·.module) := by
  rw [blocksFrom, List.map_map]
  show (ws.zipIdx n).map ((·.module) ∘ Prod.fst) = _
  rw [← List.map_map, List.zipIdx_map_fst]

theorem mem_blocksFrom {entries : BlockHook σ → σ → List Entry} {n : ℕ} {ws : List (BlockHook σ)} {b : Block}
    (h : b ∈ blocksFrom entries s n ws) : ∃ w ∈ ws, b.module = w.module ∧ b.entries = entries w s := by
  obtain ⟨⟨w, k⟩, hmem, rfl⟩ := List.mem_map.1 h
  exact ⟨w, List.fst_mem_of_mem_zipIdx hmem, rfl, rfl⟩

theorem handed_calls {entries : BlockHook σ → σ → List Entry} {ws : List (BlockHook σ)}
    (hws : (ws.map (·.module)).Nodup) (hrs : (rs.map (·.module)).Nodup) (n : ℕ) :
    Handed entries s ws rs (calls rs (blocksFrom entries s n ws)) where
  inOrder := by rw [map_module_calls, map_module_blocksFrom]
  once := by
    rw [map_module_calls, map_module_blocksFrom]
    exact hws.filter _
  own h := by
    obtain ⟨hb, hr, hmodule⟩ := (mem_calls hrs).1 h
    obtain ⟨w, hw, hb', hentries⟩ := mem_blocksFrom hb
    exact ⟨hr, w, hw, (hmodule.trans hb').symm, hb', hentries⟩
  each {w r} hw hr hmodule := by
    have hmem : r.module ∈ (blocksFrom entries s n ws).map (·.module) := by
      rw [map_module_blocksFrom, ← hmodule]
      exact List.mem_map_of_mem hw
    obtain ⟨b, hb, hb'⟩ := List.mem_map.1 hmem
    exact ⟨b, (mem_calls hrs).2 ⟨hb, hr, hb'.symm⟩⟩

/-- A section that holds no blocks yet comes back from writing as one that readers are led through. The section may
be selected in any document that has the same sections, and its owner may move the cursor over values of its
own first. -/
theorem blocks_return {entries : BlockHook σ → σ → List Entry} {ws : List (BlockHook σ)}
    (hws : (ws.map (·.module)).Nodup) (hwrite : ∀ w ∈ ws, w.Writes (entries w))
    (hplain : ∀ w ∈ ws, ∀ s, ∀ e ∈ entries w s, isMarker e.1 = false)
    (hrs : (rs.map (·.module)).Nodup) (hread : ∀ r ∈ rs, r.Reads (reader r)) (hselected : d.selected = some i)
    (hopen : i < d.sections.length) (howner : ∀ e ∈ d.entries, isMarker e.1 = false) (s : σ) :
    ∃ written hs, enumWrite ws s d = (.ok (), s, written) ∧ Handed entries s ws rs hs ∧
      ∀ c : Document, c.sections = written.sections → ∀ n t, ∃ u last,
        enumRead rs t ((c.selectAt i).walk n) = some (.ok (), u, last) ∧ Loads reader hs t u := by
  let blocks := blocksFrom entries s (d.blocks.toNat + 1) ws
  let written := (d.counting (d.blocks + .ofNat ws.length)).extend (blocks.flatMap Block.list ++ [endEntry])
  have hcurrent := isSome_current? hselected hopen
  refine ⟨written, calls rs blocks, enumWrite_eq hwrite hcurrent s, handed_calls hws hrs _, ?_⟩
  intro c hsections n t
  have hentries : (c.selectAt i).entries = d.entries ++ (blocks.flatMap Block.list ++ [endEntry]) := by
    have hselected' : written.selected = d.selected := selected_extend _ _
    have hagain : (c.selectAt i).entries = written.entries :=
      entries_congr hsections (hselected'.trans hselected).symm
    rw [hagain, entries_extend (d := d.counting (d.blocks + .ofNat ws.length)) hcurrent]
    rfl
  have hupcoming : (c.selectAt i).upcoming = d.entries := by
    show (c.selectAt i).entries.takeWhile _ = _
    rw [hentries, takeWhile_plain howner (isMarker_head_blocks blocks)]
  obtain ⟨m, hm, hwalk⟩ := walk_eq n (c.selectAt i)
  have hat : ((c.selectAt i).advance m).entries.drop ((c.selectAt i).advance m).ahead =
      d.entries.drop m ++ (blocks.flatMap Block.list ++ [endEntry]) := by
    have hstart : (c.selectAt i).ahead = 0 := rfl
    rw [hupcoming] at hm
    rw [entries_advance, ahead_advance, hstart, Nat.zero_add, hentries, List.drop_append_of_le_length hm]
  have hplain' : ∀ b ∈ blocks, ∀ e ∈ b.entries, isMarker e.1 = false := by
    intro b hb
    obtain ⟨w, hw, -, hb'⟩ := mem_blocksFrom hb
    rw [hb']
    exact hplain w hw s
  have howner' : ∀ e ∈ d.entries.drop m, isMarker e.1 = false := fun e he ↦ howner e (List.mem_of_mem_drop he)
  obtain ⟨u, hu, hloads⟩ := enumRead_blocks (s := t) hread howner' hplain' hat
  rw [hwalk]
  exact ⟨u, _, hu, hloads⟩

/-- Writes the same block whatever the state is, and reads all of it. -/
def collecting (module : String) (own : List Entry) : BlockHook (List Entry) where
  module := module
  read s d := (.ok (), s ++ d.upcoming, d.advance d.upcoming.length)
  write := putAll own

def counts (h : BlockHook (List Entry)) (_ : List Entry) : List Entry :=
  if h.module = "buff" then [("Count", "3"), ("Count", "3")] else [("Count", "1")]

def counters : List (BlockHook (List Entry)) :=
  [collecting "buff" [("Count", "3"), ("Count", "3")], collecting "mail" [("Count", "1")]]

theorem writes_counters {w : BlockHook (List Entry)} (hw : w ∈ counters) : w.Writes (counts w) := by
  simp only [counters, List.mem_cons, List.not_mem_nil, or_false] at hw
  rcases hw with rfl | rfl <;> exact fun _ _ ↦ rfl

theorem counts_plain (h : BlockHook (List Entry)) (s : List Entry) : ∀ e ∈ counts h s, isMarker e.1 = false := by
  rw [counts]
  split <;> decide

def readers : List (BlockHook (List Entry)) := [collecting "mail" [], collecting "shop" [], collecting "buff" []]

theorem reads_collecting (module : String) (own : List Entry) : (collecting module own).Reads Reader.collector :=
  fun s d ↦ ⟨_, _, rfl, Reader.collector_runs s d⟩

def arden : Document := ⟨[⟨"1001", [("Name", "Arden")]⟩], some 0, none, 0, .unique⟩

theorem blocks_return_shared_key :
    ∃ written hs, enumWrite counters [] arden = (.ok (), [], written) ∧ Handed counts [] counters readers hs ∧
      ∀ c : Document, c.sections = written.sections → ∀ n t, ∃ u last,
        enumRead readers t ((c.selectAt 0).walk n) = some (.ok (), u, last) ∧
          Loads (fun _ ↦ Reader.collector) hs t u := by
  apply blocks_return
  · decide
  · intro w hw
    exact writes_counters hw
  · intro w _
    exact counts_plain w
  · decide
  · intro r hr
    simp only [readers, List.mem_cons, List.not_mem_nil, or_false] at hr
    rcases hr with rfl | rfl | rfl <;> exact reads_collecting _ _
  · rfl
  · decide
  · decide

example : (enumRead readers [] ((enumWrite counters [] arden).2.2.selectAt 0)).map (·.2.1) =
    some [("Count", "3"), ("Count", "3"), ("Count", "1")] := by decide

end Document
end GameHost
