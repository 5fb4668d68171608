import GameHost.Proofs.Document.Visits

namespace GameHost.Document

variable {σ : Type} {d : Document} {name : String} {i : ℕ}

/-- Selects a section and has the hooks write their blocks to it. -/
def save (hooks : List (BlockHook σ)) (name : String) (s : σ) (d : Document) : Except Error Document :=
  match enumWrite hooks s (d.select name) with
  | (.ok _, _, after) => .ok after
  | (.error e, _, _) => .error e

def saveAll (hooks : List (BlockHook σ)) (name : String) : List σ → Document → Except Error Document
  | [], d => .ok d
  | s :: ss, d => (save hooks name s d).bind (saveAll hooks name ss)

theorem select_of_findIdx? (h : d.sections.findIdx? (·.name == name) = some i) : d.select name = d.selectAt i := by
  rw [select, h]

theorem exists_selectAt (d : Document) (name : String) :
    ∃ c i, d.select name = selectAt c i ∧ i < c.sections.length ∧ c.sections.findIdx? (·.name == name) = some i := by
  cases hfind : d.sections.findIdx? (·.name == name) with
  | some i => exact ⟨d, i, select_of_findIdx? hfind, (List.findIdx?_eq_some_iff_getElem.1 hfind).1, hfind⟩
  | none =>
    refine ⟨d.addSection name, d.sections.length, by rw [select, hfind], by simp [addSection], ?_⟩
    simp [addSection, List.findIdx?_append, hfind]

theorem map_name_extend (d : Document) (es : List Entry) :
    (d.extend es).sections.map (·.name) = d.sections.map (·.name) := by
  rw [extend]
  split
  · apply List.ext_getElem?
    intro j
    simp only [List.getElem?_map, List.getElem?_modify]
    cases d.sections[j]? with
    | none => rfl
    | some s => exact congrArg some (by split <;> rfl)
  · rfl

theorem findIdx?_congr {c : Document} (h : c.sections.map (·.name) = d.sections.map (·.name)) :
    c.sections.findIdx? (·.name == name) = d.sections.findIdx? (·.name == name) := by
  have hmap := congrArg (List.findIdx? (· == name)) h
  rw [List.findIdx?_map, List.findIdx?_map] at hmap
  exact hmap

variable {hooks : List (BlockHook σ)} {entries : BlockHook σ → σ → List Entry}

def saved (entries : BlockHook σ → σ → List Entry) (hooks : List (BlockHook σ)) (s : σ) : List Entry :=
  (blocksFrom entries s 1 hooks).flatMap Block.list ++ [endEntry]

theorem save_eq (hwrite : ∀ h ∈ hooks, h.Writes (entries h)) (name : String) (s : σ) (d : Document) :
    ∃ after, save hooks name s d = .ok after ∧
      (after.select name).entries = (d.select name).entries ++ saved entries hooks s := by
  obtain ⟨c, i, hselect, hopen, hfind⟩ := exists_selectAt d name
  have hran : enumWrite hooks s (c.selectAt i) =
      (.ok (), s, ((c.selectAt i).counting (0 + .ofNat hooks.length)).extend (saved entries hooks s)) :=
    enumWrite_eq hwrite (isSome_current? (d := c.selectAt i) rfl hopen) s
  -- Writing renames no section, so the name selects the same one again.
  have hagain : (((c.selectAt i).counting (0 + .ofNat hooks.length)).extend (saved entries hooks s)).sections.findIdx?
      (·.name == name) = some i :=
    (findIdx?_congr (map_name_extend _ _)).trans hfind
  rw [save, hselect, hran]
  refine ⟨_, rfl, ?_⟩
  rw [select_of_findIdx? hagain]
  exact entries_selectAt_extend (d := c.selectAt i) rfl hopen rfl

theorem saveAll_eq (hwrite : ∀ h ∈ hooks, h.Writes (entries h)) (name : String) (ss : List σ) (d : Document) :
    ∃ after, saveAll hooks name ss d = .ok after ∧
      (after.select name).entries = (d.select name).entries ++ ss.flatMap (saved entries hooks) := by
  induction ss generalizing d with
  | nil => exact ⟨d, rfl, by simp⟩
  | cons s ss ih =>
    obtain ⟨first, hfirst, hentries⟩ := save_eq hwrite name s d
    obtain ⟨after, hlater, hentries'⟩ := ih first
    refine ⟨after, ?_, ?_⟩
    · rw [saveAll, hfirst]
      exact hlater
    · rw [hentries', hentries, List.flatMap_cons, List.append_assoc]

theorem visits_saved_append {s : σ} (hplain : ∀ h ∈ hooks, ∀ e ∈ entries h s, isMarker e.1 = false)
    (held later : List Entry) :
    visits (hooks.map (·.module)) (held ++ (saved entries hooks s ++ later)) =
      visits (hooks.map (·.module)) held ++
        if held.any isEnd then [] else hooks.map fun h ↦ (h.module, entries h s) := by
  have hend : ∀ e ∈ (endEntry :: later).head?, isMarker e.1 := by simp [isMarker_endEntry]
  rw [saved, List.append_assoc, List.singleton_append, visits_append (isMarker_head _ hend),
    visits_blocksFrom (fun h hh ↦ List.mem_map_of_mem hh) hplain hend, visits_end (by decide), List.append_nil]

theorem answering_hooks (hdistinct : (hooks.map (·.module)).Nodup) (own : BlockHook σ → List Entry) :
    (hooks.map fun h ↦ (h.module, own h)).filterMap (answering hooks) = hooks.map fun h ↦ (h, own h) := by
  have hanswer : ∀ h ∈ hooks, answering hooks (h.module, own h) = some (h, own h) :=
    fun h hh ↦ answering_module hdistinct hh _
  rw [List.filterMap_map, ← List.filterMap_eq_map']
  exact List.filterMap_congr hanswer

/-- However often a section is saved to, all saves are in it, and reading it again comes to what it held before and,
unless there was an end entry already, calls the reader of every hook once, in order, with what that hook wrote in the
first save. -/
theorem first_save_kept (hdistinct : (hooks.map (·.module)).Nodup) (hwrite : ∀ h ∈ hooks, h.Writes (entries h))
    (hread : ∀ h ∈ hooks, h.MovesOn) (first : σ)
    (hplain : ∀ h ∈ hooks, ∀ e ∈ entries h first, isMarker e.1 = false) (later : List σ) (d : Document) (name : String)
    (t : σ) :
    ∃ after u last, saveAll hooks name (first :: later) d = .ok after ∧
      (after.select name).entries = (d.select name).entries ++ (first :: later).flatMap (saved entries hooks) ∧
      enumRead hooks t (after.select name) = some (.ok (), u, last) ∧
      hookCalls hooks t (after.select name) = some
        ((visits (hooks.map (·.module)) (d.select name).entries).filterMap (answering hooks) ++
          if (d.select name).entries.any isEnd then [] else hooks.map fun h ↦ (h, entries h first)) ∧
      ((∀ e ∈ (d.select name).entries, isMarker e.1 = false) →
        hookCalls hooks t (after.select name) = some (hooks.map fun h ↦ (h, entries h first))) := by
  obtain ⟨after, hsaved, hentries⟩ := saveAll_eq hwrite name (first :: later) d
  obtain ⟨u, last, hran, hcalls⟩ := hookCalls_eq hread t (after.select name)
  have hahead : (after.select name).ahead = 0 := by
    obtain ⟨c, i, hselect, -, -⟩ := exists_selectAt after name
    rw [hselect]
    rfl
  rw [hahead, List.drop_zero, hentries, List.flatMap_cons, visits_saved_append hplain, List.filterMap_append,
    apply_ite (List.filterMap (answering hooks)), List.filterMap_nil, answering_hooks hdistinct] at hcalls
  refine ⟨after, u, last, hsaved, hentries, hran, hcalls, fun hheld ↦ ?_⟩
  have hend : (d.select name).entries.any isEnd = false :=
    List.any_eq_false.2 fun e he ↦ by simp [isEnd_of_plain (hheld e he)]
  have hnone : visits (hooks.map (·.module)) (d.select name).entries = [] := by
    rw [← List.append_nil (d.select name).entries, visits_skip hheld, visits]
  rw [hcalls, hnone, hend, List.filterMap_nil, List.nil_append, if_neg (by decide)]

def keeping (module : String) : BlockHook (List Entry) := { collecting module [] with write := fun s ↦ putAll s s }

theorem movesOn_keeping (module : String) : (keeping module).MovesOn := ⟨_, reads_collecting module []⟩

def mailbox : List (BlockHook (List Entry)) := [keeping "buff", keeping "mail"]

theorem first_save_kept_mailbox :
    (∃ after u last, saveAll mailbox "1001" [[("Unread", "1")], [("Unread", "2")]] .empty = .ok after ∧
      (after.select "1001").entries =
        [("ModuleData1", "buff"), ("Unread", "1"), ("ModuleData2", "mail"), ("Unread", "1"), ("EnumEnd", "0"),
          ("ModuleData1", "buff"), ("Unread", "2"), ("ModuleData2", "mail"), ("Unread", "2"), ("EnumEnd", "0")] ∧
      enumRead mailbox [] (after.select "1001") = some (.ok (), u, last) ∧
      hookCalls mailbox [] (after.select "1001") =
        some [(keeping "buff", [("Unread", "1")]), (keeping "mail", [("Unread", "1")])]) ∧
    ∃ after, saveAll mailbox "1001" [[("Unread", "1")]] (ofSections [⟨"1001", [("EnumEnd", "0")]⟩]) = .ok after ∧
      hookCalls mailbox [] (after.select "1001") = some [] := by
  have hwrite : ∀ h ∈ mailbox, h.Writes fun s ↦ s := by simp [mailbox, keeping, BlockHook.Writes]
  have hread : ∀ h ∈ mailbox, h.MovesOn := by
    intro h hh
    simp only [mailbox, List.mem_cons, List.not_mem_nil, or_false] at hh
    rcases hh with rfl | rfl <;> exact movesOn_keeping _
  have hkept (later : List (List Entry)) (d : Document) :=
    first_save_kept (by decide) hwrite hread [("Unread", "1")] (by decide) later d "1001" []
  constructor
  · obtain ⟨after, u, last, hsaved, hentries, hread, hcalls, -⟩ := hkept [[("Unread", "2")]] .empty
    exact ⟨after, u, last, hsaved, hentries, hread, hcalls⟩
  · obtain ⟨after, -, -, hsaved, -, -, hcalls, -⟩ := hkept [] (ofSections [⟨"1001", [("EnumEnd", "0")]⟩])
    exact ⟨after, hsaved, hcalls⟩

/-- A second save does not take the place of the first. -/
theorem second_save_hidden :
    ¬ ∀ after, saveAll mailbox "1001" [[("Unread", "1")], [("Unread", "2")]] .empty = .ok after →
      readerCalls mailbox [] (after.select "1001") =
        some [("buff", [("Unread", "2")]), ("mail", [("Unread", "2")])] := by
  intro h
  have hsaved : saveAll mailbox "1001" [[("Unread", "1")], [("Unread", "2")]] .empty =
      .ok ⟨[⟨"1001", [("ModuleData1", "buff"), ("Unread", "1"), ("ModuleData2", "mail"), ("Unread", "1"),
        ("EnumEnd", "0"), ("ModuleData1", "buff"), ("Unread", "2"), ("ModuleData2", "mail"), ("Unread", "2"),
        ("EnumEnd", "0")]⟩], some 0, none, 2, .unique⟩ := by decide +kernel
  exact absurd (h _ hsaved) (by decide +kernel)

end GameHost.Document
