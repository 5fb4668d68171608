import GameHost.Proofs.Document.Blocks
import Mathlib.Data.List.TakeWhile

/-!
Which readers are called over the entries of a section, and what each of them can come to.

Sections may hold entries of any kind here, whoever wrote them. `visits` tells the calls from the entries alone;
hooks that note every call of their readers (`BlockHook.traced`) show that reading makes exactly those calls
(`hookCalls_eq`), each to the first hook of its module.
-/

namespace GameHost

/-- A call of a reader: the module that it is for, and the entries that it can move over. -/
abbrev Visit := String × List Entry

/-- A hook that notes the calls of its reader and does the same otherwise. A note holds the hook itself, since hooks
may share a name. -/
def BlockHook.traced {σ : Type} (h : BlockHook σ) : BlockHook (σ × List (BlockHook σ × List Entry)) where
  module := h.module
  read s d :=
    let (outcome, after, last) := h.read s.1 d
    (outcome, (after, s.2 ++ [(h, d.upcoming)]), last)
  write s d :=
    let (outcome, after, last) := h.write s.1 d
    (outcome, (after, s.2), last)

/-- The reader of the hook only moves on, and does not fail. -/
def BlockHook.MovesOn {σ : Type} (h : BlockHook σ) : Prop := ∃ r : Reader σ, h.Reads r

namespace Document

variable {σ : Type}

def hookCalls (hooks : List (BlockHook σ)) (s : σ) (d : Document) : Option (List (BlockHook σ × List Entry)) :=
  (enumRead (hooks.map BlockHook.traced) (s, []) d).map (·.2.1.2)

def visit (call : BlockHook σ × List Entry) : Visit := (call.1.module, call.2)

def readerCalls (hooks : List (BlockHook σ)) (s : σ) (d : Document) : Option (List Visit) :=
  (hookCalls hooks s d).map (List.map visit)

/-- The hook that is called for a visit. -/
def answering (hooks : List (BlockHook σ)) (v : Visit) : Option (BlockHook σ × List Entry) :=
  (hooks.find? (·.module == v.1)).map (·, v.2)

def isEnd (e : Entry) : Bool := startsWith e.1 endKey

/-- The calls that a list of entries leads to, up to the first end entry. -/
def visits (modules : List String) : List Entry → List Visit
  | [] => []
  | e :: es =>
    if startsWith e.1 blockKey then
      (if e.2 ∈ modules then [(e.2, es.takeWhile fun e ↦ !isMarker e.1)] else []) ++ visits modules es
    else if isEnd e then [] else visits modules es

section

variable {modules : List String} {e : Entry} {es rest : List Entry}

theorem entry_cases (e : Entry) : startsWith e.1 blockKey ∨ isEnd e ∨ isMarker e.1 = false := by
  rw [isMarker, isEnd, Bool.or_eq_false_iff]
  cases startsWith e.1 blockKey <;> cases startsWith e.1 endKey <;> simp

theorem visits_block (hblock : startsWith e.1 blockKey) :
    visits modules (e :: es) =
      (if e.2 ∈ modules then [(e.2, es.takeWhile fun e ↦ !isMarker e.1)] else []) ++ visits modules es := by
  rw [visits, if_pos hblock]

theorem isEnd_of_block (hblock : startsWith e.1 blockKey) : isEnd e = false := startsWith_endKey_of_block hblock

theorem isEnd_of_plain (hplain : isMarker e.1 = false) : isEnd e = false := by
  rw [isMarker, Bool.or_eq_false_iff] at hplain
  exact hplain.2

theorem visits_end (hend : isEnd e) : visits modules (e :: es) = [] := by
  have hblock : ¬ startsWith e.1 blockKey := by
    intro hblock
    rw [isEnd_of_block hblock] at hend
    cases hend
  rw [visits, if_neg hblock, if_pos hend]

theorem visits_plain (hplain : isMarker e.1 = false) : visits modules (e :: es) = visits modules es := by
  rw [visits, isEnd_of_plain hplain]
  rw [isMarker, Bool.or_eq_false_iff] at hplain
  simp only [hplain.1, Bool.false_eq_true, if_false]

theorem visits_drop {n : ℕ} (hn : n ≤ (es.takeWhile fun e ↦ !isMarker e.1).length) :
    visits modules (es.drop n) = visits modules es := by
  induction n generalizing es with
  | zero => rfl
  | succ n ih =>
    cases es with
    | nil => rfl
    | cons e es =>
      rw [List.takeWhile_cons] at hn
      split at hn
      · next hplain =>
        rw [List.drop_succ_cons, visits_plain (by simpa using hplain)]
        exact ih (Nat.le_of_succ_le_succ hn)
      · cases hn

theorem takeWhile_append_marker (hrest : ∀ e ∈ rest.head?, isMarker e.1) :
    (es ++ rest).takeWhile (fun e ↦ !isMarker e.1) = es.takeWhile fun e ↦ !isMarker e.1 := by
  induction es with
  | nil => exact takeWhile_plain (by simp) hrest
  | cons e es ih => rw [List.cons_append, List.takeWhile_cons, List.takeWhile_cons, ih]

/-- What stands behind an end entry is not reached; what stands in front of a marker does not reach behind it. -/
theorem visits_append (hrest : ∀ e ∈ rest.head?, isMarker e.1) :
    visits modules (es ++ rest) = visits modules es ++ if es.any isEnd then [] else visits modules rest := by
  induction es with
  | nil => rfl
  | cons e es ih =>
    rw [List.cons_append, List.any_cons]
    rcases entry_cases e with hblock | hend | hplain
    · rw [visits_block hblock, visits_block hblock, takeWhile_append_marker hrest, ih, isEnd_of_block hblock,
        Bool.false_or, List.append_assoc]
    · rw [visits_end hend, visits_end hend, hend]
      rfl
    · rw [visits_plain hplain, visits_plain hplain, ih, isEnd_of_plain hplain, Bool.false_or]

end

/-! ### Reading makes these calls -/

variable {rs : List (BlockHook σ)} {d : Document} {i : ℕ}

theorem read_traced {h : BlockHook σ} {s after : σ} {outcome : Except Error Unit} {last : Document}
    (hread : h.read s d = (outcome, after, last)) (log : List (BlockHook σ × List Entry)) :
    h.traced.read (s, log) d = (outcome, (after, log ++ [(h, d.upcoming)]), last) := by
  simp only [BlockHook.traced, hread]

theorem find?_traced (rs : List (BlockHook σ)) (module : String) :
    (rs.map BlockHook.traced).find? (·.module == module) =
      (rs.find? (·.module == module)).map BlockHook.traced := by
  rw [List.find?_map]
  rfl

/-- Apart from its notes, a traced run is the run itself. -/
theorem readBlocks_traced (fuel i : ℕ) (s : σ) (log : List (BlockHook σ × List Entry)) (d : Document) :
    (readBlocks (rs.map BlockHook.traced) fuel i (s, log) d).map (fun r ↦ (r.1, r.2.1.1, r.2.2)) =
      readBlocks rs fuel i s d := by
  induction fuel generalizing i s log d with
  | zero => rfl
  | succ fuel ih =>
    cases hat : d.entries[i]? with
    | none =>
      rw [readBlocks_done hat, readBlocks_done hat]
      rfl
    | some e =>
      rcases entry_cases e with hblock | hend | hplain
      · have hfind := find?_traced rs e.2
        cases hreader : rs.find? (·.module == e.2) with
        | none =>
          rw [hreader] at hfind
          rw [readBlocks_passed hat hblock hfind, readBlocks_passed hat hblock hreader, ih]
        | some h =>
          rw [hreader] at hfind
          rcases hcall : h.read s { d with cursor := some i } with ⟨cause | _, after, last⟩
          · rw [readBlocks_failed hat hblock hreader hcall, readBlocks_failed hat hblock hfind (read_traced hcall log)]
            rfl
          · rw [readBlocks_handed hat hblock hreader hcall, readBlocks_handed hat hblock hfind (read_traced hcall log),
              ih]
      · rw [readBlocks_end hat hend, readBlocks_end hat hend]
        rfl
      · rw [readBlocks_plain hat hplain, readBlocks_plain hat hplain, ih]

theorem mem_modules_of_find? {module : String} {h : BlockHook σ} (hfind : rs.find? (·.module == module) = some h) :
    h ∈ rs ∧ h.module = module := by
  have hmodule := List.find?_some hfind
  exact ⟨List.mem_of_find?_eq_some hfind, eq_of_beq hmodule⟩

/-- One step of the loop makes the calls that its entry asks for. A reader that is called leaves the cursor in front of
the next marker, so that no calls are missed by going on from there. -/
theorem readBlocks_visit (hread : ∀ r ∈ rs, r.MovesOn) (hcursor : ∀ c ∈ d.cursor, c ≤ i) {e : Entry}
    {es : List Entry} (hrest : d.entries.drop i = e :: es) (hgoes : isEnd e = false) (s : σ)
    (log : List (BlockHook σ × List Entry)) :
    ∃ t calls m c, (∀ k ∈ c, k ≤ i + m) ∧ visits (rs.map (·.module)) (e :: es) =
        calls ++ visits (rs.map (·.module)) (d.entries.drop (i + m + 1)) ∧
      ∀ fuel, readBlocks (rs.map BlockHook.traced) (fuel + 1) i (s, log) d =
        readBlocks (rs.map BlockHook.traced) fuel (i + m + 1) (t, log ++ calls.filterMap (answering rs))
          { d with cursor := c } := by
  obtain ⟨hat, hes⟩ := getElem?_of_drop hrest
  rcases entry_cases e with hblock | hend | hplain
  · rw [visits_block hblock]
    have hfind := find?_traced rs e.2
    cases hreader : rs.find? (·.module == e.2) with
    | none =>
      rw [hreader] at hfind
      have habsent : e.2 ∉ rs.map (·.module) := by simpa using hreader
      refine ⟨s, [], 0, some i, by simp, ?_, fun fuel ↦ ?_⟩
      · rw [if_neg habsent, Nat.add_zero, hes]
      · rw [readBlocks_passed hat hblock hfind, List.filterMap_nil, List.append_nil, Nat.add_zero]
    | some h =>
      rw [hreader] at hfind
      obtain ⟨hmem, hmodule⟩ := mem_modules_of_find? hreader
      have hlisted : e.2 ∈ rs.map (·.module) := hmodule ▸ List.mem_map_of_mem hmem
      let called : Document := { d with cursor := some i }
      have hupcoming : called.upcoming = es.takeWhile fun e ↦ !isMarker e.1 := by
        rw [← hes]
        rfl
      obtain ⟨reader, hreads⟩ := hread h hmem
      obtain ⟨t, last, hcall, hruns⟩ := hreads s called
      obtain ⟨-, m, hm, hlast⟩ := hruns.sees
      rw [advance_of_cursor called rfl] at hlast
      rw [hupcoming] at hm
      have htraced := read_traced hcall log
      rw [hupcoming] at htraced
      have hanswers (es : List Entry) : [(e.2, es)].filterMap (answering rs) = [(h, es)] := by
        simp only [List.filterMap_cons, answering, hreader, Option.map_some, List.filterMap_nil]
      refine ⟨t, [(e.2, es.takeWhile fun e ↦ !isMarker e.1)], m, some (i + m), by simp, ?_, fun fuel ↦ ?_⟩
      · rw [if_pos hlisted, Nat.add_assoc, Nat.add_comm m, ← Nat.add_assoc, ← List.drop_drop, hes, visits_drop hm]
      · rw [readBlocks_handed hat hblock hfind htraced, hlast, Option.getD_some, Nat.max_eq_left (Nat.le_add_right i m),
          hanswers]
  · rw [hgoes] at hend
    cases hend
  · have hmax : max (d.cursor.getD i) i = i := by
      cases hc : d.cursor with
      | none => exact Nat.max_self i
      | some c => exact Nat.max_eq_right (hcursor c hc)
    refine ⟨s, [], 0, d.cursor, hcursor, ?_, fun fuel ↦ ?_⟩
    · rw [visits_plain hplain, Nat.add_zero, hes, List.nil_append]
    · rw [readBlocks_plain hat hplain, hmax, List.filterMap_nil, List.append_nil, Nat.add_zero]

theorem readBlocks_visits (hread : ∀ r ∈ rs, r.MovesOn) (hcursor : ∀ c ∈ d.cursor, c ≤ i) (fuel : ℕ)
    (hfuel : d.entries.length ≤ i + fuel) (s : σ) (log : List (BlockHook σ × List Entry)) :
    ∃ t last, readBlocks (rs.map BlockHook.traced) (fuel + 1) i (s, log) d =
      some (.ok (), (t, log ++ (visits (rs.map (·.module)) (d.entries.drop i)).filterMap (answering rs)), last) := by
  induction fuel generalizing i s log d with
  | zero =>
    have hpast : d.entries.length ≤ i := hfuel
    rw [readBlocks_done (List.getElem?_eq_none hpast), List.drop_eq_nil_of_le hpast, visits, List.filterMap_nil,
      List.append_nil]
    exact ⟨s, d, rfl⟩
  | succ fuel ih =>
    cases hrest : d.entries.drop i with
    | nil =>
      rw [readBlocks_done (List.getElem?_eq_none (List.drop_eq_nil_iff.1 hrest)), visits, List.filterMap_nil,
        List.append_nil]
      exact ⟨s, d, rfl⟩
    | cons e es =>
      cases hend : isEnd e with
      | true =>
        rw [readBlocks_end (getElem?_of_drop hrest).1 hend, visits_end hend, List.filterMap_nil, List.append_nil]
        exact ⟨s, _, rfl⟩
      | false =>
        obtain ⟨t, calls, m, c, hc, hvisits, hstep⟩ := readBlocks_visit hread hcursor hrest hend s log
        obtain ⟨u, last, hgo⟩ := ih (d := { d with cursor := c }) (i := i + m + 1)
          (fun k hk ↦ Nat.le_succ_of_le (hc k hk)) (show d.entries.length ≤ i + m + 1 + fuel by omega) t
          (log ++ calls.filterMap (answering rs))
        refine ⟨u, last, ?_⟩
        rw [hstep, hvisits, List.filterMap_append, ← List.append_assoc]
        exact hgo

theorem hookCalls_eq (hread : ∀ r ∈ rs, r.MovesOn) (s : σ) (d : Document) :
    ∃ t last, enumRead rs s d = some (.ok (), t, last) ∧
      hookCalls rs s d = some ((visits (rs.map (·.module)) (d.entries.drop d.ahead)).filterMap (answering rs)) := by
  have hroom := length_entries_lt_readFuel d
  obtain ⟨fuel, hfuel⟩ : ∃ n, d.readFuel = n + 1 := ⟨d.readFuel - 1, by omega⟩
  obtain ⟨t, last, hran⟩ := readBlocks_visits hread (le_ahead d) fuel (by omega) s []
  rw [← hfuel] at hran
  refine ⟨t, last, ?_, ?_⟩
  · rw [enumRead, ← readBlocks_traced d.readFuel d.ahead s [] d, hran]
    rfl
  · rw [hookCalls, enumRead, hran]
    rfl

theorem mem_modules_of_mem_visits {modules : List String} {es : List Entry} {v : Visit} (hv : v ∈ visits modules es) :
    v.1 ∈ modules := by
  induction es with
  | nil => cases hv
  | cons e es ih =>
    rcases entry_cases e with hblock | hend | hplain
    · rw [visits_block hblock, List.mem_append] at hv
      rcases hv with hfirst | hrest
      · split at hfirst
        · next hlisted => rwa [List.mem_singleton.1 hfirst]
        · cases hfirst
      · exact ih hrest
    · rw [visits_end hend] at hv
      cases hv
    · rw [visits_plain hplain] at hv
      exact ih hv

theorem map_visit_answering {vs : List Visit} (hlisted : ∀ v ∈ vs, v.1 ∈ rs.map (·.module)) :
    (vs.filterMap (answering rs)).map visit = vs := by
  induction vs with
  | nil => rfl
  | cons v vs ih =>
    cases hfind : rs.find? (·.module == v.1) with
    | none =>
      have habsent : v.1 ∉ rs.map (·.module) := by simpa using hfind
      exact absurd (hlisted v List.mem_cons_self) habsent
    | some h =>
      have hanswer : answering rs v = some (h, v.2) := by rw [answering, hfind, Option.map_some]
      have hvisit : visit (h, v.2) = v := congrArg (·, v.2) (mem_modules_of_find? hfind).2
      rw [List.filterMap_cons_some hanswer, List.map_cons, hvisit, ih fun v hv ↦ hlisted v (List.mem_cons_of_mem _ hv)]

theorem readerCalls_eq (hread : ∀ r ∈ rs, r.MovesOn) (s : σ) (d : Document) :
    ∃ t last, enumRead rs s d = some (.ok (), t, last) ∧
      readerCalls rs s d = some (visits (rs.map (·.module)) (d.entries.drop d.ahead)) := by
  obtain ⟨t, last, hran, hcalls⟩ := hookCalls_eq hread s d
  refine ⟨t, last, hran, ?_⟩
  rw [readerCalls, hcalls, Option.map_some, map_visit_answering fun v ↦ mem_modules_of_mem_visits]

theorem answering_module (hdistinct : (rs.map (·.module)).Nodup) {h : BlockHook σ} (hh : h ∈ rs) (es : List Entry) :
    answering rs (h.module, es) = some (h, es) := by
  rw [answering, (find?_module_eq_some hdistinct).2 ⟨hh, rfl⟩, Option.map_some]

/-! ### Sections that hold blocks -/

variable {modules : List String} {entries : BlockHook σ → σ → List Entry} {s : σ}

theorem visits_skip {es rest : List Entry} (hplain : ∀ e ∈ es, isMarker e.1 = false) :
    visits modules (es ++ rest) = visits modules rest := by
  induction es with
  | nil => rfl
  | cons e es ih =>
    rw [List.cons_append, visits_plain (hplain e List.mem_cons_self), ih]
    exact fun e he ↦ hplain e (List.mem_cons_of_mem _ he)

theorem visits_list {b : Block} {rest : List Entry} (hlisted : b.module ∈ modules)
    (hrest : ∀ e ∈ rest.head?, isMarker e.1) :
    visits modules (b.list ++ rest) =
      (b.module, b.entries.takeWhile fun e ↦ !isMarker e.1) :: visits modules (b.entries ++ rest) := by
  rw [Block.list, List.cons_append, visits_block b.startsWith_opening, takeWhile_append_marker hrest]
  exact congrArg (· ++ _) (if_pos hlisted)

theorem isMarker_head (blocks : List Block) {rest : List Entry} (hrest : ∀ e ∈ rest.head?, isMarker e.1) :
    ∀ e ∈ (blocks.flatMap Block.list ++ rest).head?, isMarker e.1 := by
  cases blocks with
  | nil => exact hrest
  | cons b blocks => simp [Block.list, b.isMarker_opening]

theorem visits_blocks {blocks : List Block} (hlisted : ∀ b ∈ blocks, b.module ∈ modules)
    (hplain : ∀ b ∈ blocks, ∀ e ∈ b.entries, isMarker e.1 = false) {rest : List Entry}
    (hrest : ∀ e ∈ rest.head?, isMarker e.1) :
    visits modules (blocks.flatMap Block.list ++ rest) =
      blocks.map (fun b ↦ (b.module, b.entries)) ++ visits modules rest := by
  induction blocks with
  | nil => rfl
  | cons b blocks ih =>
    have hown := hplain b List.mem_cons_self
    have htake : (b.entries.takeWhile fun e ↦ !isMarker e.1) = b.entries :=
      List.takeWhile_eq_self_iff.2 (by simpa using hown)
    rw [List.flatMap_cons, List.append_assoc, visits_list (hlisted b List.mem_cons_self) (isMarker_head blocks hrest),
      visits_skip hown, htake, List.map_cons, List.cons_append, ih]
    · exact fun b hb ↦ hlisted b (List.mem_cons_of_mem _ hb)
    · exact fun b hb ↦ hplain b (List.mem_cons_of_mem _ hb)

theorem map_blocksFrom (n : ℕ) (ws : List (BlockHook σ)) :
    (blocksFrom entries s n ws).map (fun b ↦ (b.module, b.entries)) = ws.map fun w ↦ (w.module, entries w s) := by
  rw [blocksFrom, List.map_map]
  show (ws.zipIdx n).map ((fun w ↦ (w.module, entries w s)) ∘ Prod.fst) = _
  rw [← List.map_map, List.zipIdx_map_fst]

theorem visits_blocksFrom {n : ℕ} {ws : List (BlockHook σ)} (hlisted : ∀ w ∈ ws, w.module ∈ modules)
    (hplain : ∀ w ∈ ws, ∀ e ∈ entries w s, isMarker e.1 = false) {rest : List Entry}
    (hrest : ∀ e ∈ rest.head?, isMarker e.1) :
    visits modules ((blocksFrom entries s n ws).flatMap Block.list ++ rest) =
      ws.map (fun w ↦ (w.module, entries w s)) ++ visits modules rest := by
  rw [visits_blocks _ _ hrest, map_blocksFrom]
  · intro b hb
    obtain ⟨w, hw, hmodule, -⟩ := mem_blocksFrom hb
    exact hmodule ▸ hlisted w hw
  · intro b hb
    obtain ⟨w, hw, -, hentries⟩ := mem_blocksFrom hb
    exact hentries ▸ hplain w hw

theorem entries_selectAt_extend {c : Document} {n : UInt32} {es : List Entry} (hselected : d.selected = some i)
    (hopen : i < d.sections.length) (hsections : c.sections = ((d.counting n).extend es).sections) :
    (c.selectAt i).entries = d.entries ++ es := by
  have hselected' := selected_extend (d.counting n) es
  rw [entries_congr (c := c.selectAt i) hsections (hselected'.trans hselected).symm,
    entries_extend (d := d.counting n) (isSome_current? hselected hopen)]
  rfl

end Document
end GameHost
