import GameHost.Proofs.Document.Visits
import Mathlib.Data.List.Nodup
import Mathlib.Logic.Function.Basic

namespace GameHost.Document

variable {σ : Type}

/-- The hook writes the entries that are kept for its module. -/
def saving (kept : String → List Entry) (h : BlockHook σ) : BlockHook σ := { h with write := putAll (kept h.module) }

/-- Every hook writes its block. When the section is selected anew and read, the reader of each module but one is
called exactly once, and can move over just what its module has written. -/
def Undisturbed (hooks : List (BlockHook σ)) (kept : String → List Entry) (but : String) (d : Document) (i : ℕ)
    (s t : σ) : Prop :=
  ∃ written, enumWrite (hooks.map (saving kept)) s d = (.ok (), s, written) ∧
    ∀ c : Document, c.sections = written.sections → ∃ u last calls,
      enumRead (hooks.map (saving kept)) t (c.selectAt i) = some (.ok (), u, last) ∧
      readerCalls (hooks.map (saving kept)) t (c.selectAt i) = some calls ∧
      ∀ h ∈ hooks, h.module ≠ but → calls.filter (·.1 = h.module) = [(h.module, kept h.module)]

/-- Entries of a module that leave the blocks in front of its own and those behind it alone: up to the first end
entry, they open no block in the name of another module, and they hold no end entry if a block follows. -/
structure Harmless (front back : List String) (own : List Entry) : Prop where
  opens : ∀ e ∈ own.takeWhile fun e ↦ !isEnd e, startsWith e.1 blockKey → e.2 ∉ front ++ back
  ends : back ≠ [] → own.any isEnd = false

def handed (kept : String → List Entry) (modules : List String) : List Visit := modules.map fun m ↦ (m, kept m)

/-- The calls that blocks lead to if the module between those in front and those behind has written its own entries. -/
def callsAround (kept : String → List Entry) (front back : List String) (a : String) (own : List Entry) : List Visit :=
  handed kept front ++ (a, own.takeWhile fun e ↦ !isMarker e.1) ::
    (visits (front ++ a :: back) own ++ if own.any isEnd then [] else handed kept back)

section

variable {kept : String → List Entry} {modules front back : List String} {a b : String} {own : List Entry}

theorem filter_handed (kept : String → List Entry) (modules : List String) (b : String) :
    (handed kept modules).filter (·.1 = b) = List.replicate (modules.count b) (b, kept b) := by
  rw [handed, List.filter_map]
  show (modules.filter (· = b)).map _ = _
  rw [List.filter_eq, List.map_replicate]

theorem exists_visit_iff :
    (∃ es, (b, es) ∈ visits modules own) ↔
      b ∈ modules ∧ ∃ e ∈ own.takeWhile fun e ↦ !isEnd e, startsWith e.1 blockKey ∧ e.2 = b := by
  induction own with
  | nil => simp [visits]
  | cons e es ih =>
    rcases entry_cases e with hblock | hend | hplain
    · have hfirst : (∃ es', (b, es') ∈ if e.2 ∈ modules then [(e.2, es.takeWhile fun e ↦ !isMarker e.1)] else []) ↔
          b ∈ modules ∧ e.2 = b := by
        split
        · next hmem =>
          simp only [List.mem_singleton, Prod.mk.injEq, exists_and_left, exists_eq, and_true]
          constructor
          · rintro rfl
            exact ⟨hmem, rfl⟩
          · rintro ⟨-, rfl⟩
            rfl
        · next hmem =>
          simp only [List.not_mem_nil, exists_false, false_iff]
          rintro ⟨hb, rfl⟩
          exact hmem hb
      simp only [visits_block hblock, List.takeWhile_cons, isEnd_of_block hblock, Bool.not_false, if_true,
        List.mem_append, exists_or, hfirst, ih, List.exists_mem_cons_iff, hblock, true_and, and_or_left]
    · simp [visits_end hend, hend]
    · have hblock : startsWith e.1 blockKey = false := by
        rw [isMarker, Bool.or_eq_false_iff] at hplain
        exact hplain.1
      simp only [visits_plain hplain, ih, List.takeWhile_cons, isEnd_of_plain hplain, Bool.not_false, if_true,
        List.exists_mem_cons_iff, hblock, false_and, false_or, Bool.false_eq_true]

theorem filter_callsAround (hb : b ≠ a) :
    (callsAround kept front back a own).filter (·.1 = b) =
      List.replicate (front.count b) (b, kept b) ++ ((visits (front ++ a :: back) own).filter (·.1 = b) ++
        if own.any isEnd then [] else List.replicate (back.count b) (b, kept b)) := by
  have ha : a ≠ b := Ne.symm hb
  rw [callsAround, List.filter_append, filter_handed, List.filter_cons_of_neg (by simpa using ha), List.filter_append]
  split
  · rfl
  · rw [filter_handed]

theorem count_add_count (hnodup : (front ++ a :: back).Nodup) (hb : b ∈ front ++ back) :
    front.count b + back.count b = 1 ∧ b ≠ a := by
  rw [List.nodup_middle, List.nodup_cons] at hnodup
  refine ⟨?_, fun heq ↦ hnodup.1 (heq ▸ hb)⟩
  rw [← List.count_append, List.count_eq_one_of_mem hnodup.2 hb]

theorem harmless_of_undisturbed (hnodup : (front ++ a :: back).Nodup)
    (h : ∀ kept : String → List Entry, (∀ m, ∀ e ∈ kept m, isMarker e.1 = false) → ∀ b ∈ front ++ back,
      (callsAround kept front back a own).filter (·.1 = b) = [(b, kept b)]) : Harmless front back own := by
  have hends : back ≠ [] → own.any isEnd = false := by
    intro hback
    obtain ⟨b, hmem⟩ := List.exists_mem_of_ne_nil back hback
    obtain ⟨hcount, hne⟩ := count_add_count hnodup (List.mem_append_right front hmem)
    have hpos := List.count_pos_iff.2 hmem
    have hfront : front.count b = 0 := by omega
    by_contra hend
    rw [Bool.not_eq_false] at hend
    -- What is handed to the module behind does not depend on what it keeps.
    have hsame (kept : String → List Entry) (hplain : ∀ m, ∀ e ∈ kept m, isMarker e.1 = false) :
        (visits (front ++ a :: back) own).filter (·.1 = b) = [(b, kept b)] := by
      have hcalls := h kept hplain b (List.mem_append_right front hmem)
      rwa [filter_callsAround hne, hfront, hend, if_pos rfl, List.append_nil] at hcalls
    have hnothing := hsame (fun _ ↦ []) (by simp)
    rw [hsame (fun _ ↦ [("", "")]) fun _ ↦ by decide] at hnothing
    cases hnothing
  refine ⟨fun e he hblock hmem ↦ ?_, hends⟩
  obtain ⟨hcount, hne⟩ := count_add_count hnodup hmem
  have hlisted : e.2 ∈ front ++ a :: back := by
    rcases List.mem_append.1 hmem with hfront | hback
    · exact List.mem_append_left _ hfront
    · exact List.mem_append_right _ (List.mem_cons_of_mem _ hback)
  obtain ⟨es, hvisit⟩ := exists_visit_iff.2 ⟨hlisted, e, he, hblock, rfl⟩
  have hforged : 0 < ((visits (front ++ a :: back) own).filter (·.1 = e.2)).length :=
    List.length_pos_of_mem (List.mem_filter.2 ⟨hvisit, by simp⟩)
  have hcalls := congrArg List.length (h (fun _ ↦ []) (by simp) e.2 hmem)
  rw [filter_callsAround hne, List.length_append, List.length_append, List.length_replicate,
    List.length_singleton] at hcalls
  cases hend : own.any isEnd with
  | true =>
    have hback : back = [] := by
      by_contra hback
      rw [hends hback] at hend
      cases hend
    rw [hback, List.count_nil] at hcount
    omega
  | false =>
    rw [hend, if_neg (by decide), List.length_replicate] at hcalls
    omega

theorem undisturbed_of_harmless (hnodup : (front ++ a :: back).Nodup) (h : Harmless front back own)
    (kept : String → List Entry) (hb : b ∈ front ++ back) :
    (callsAround kept front back a own).filter (·.1 = b) = [(b, kept b)] := by
  obtain ⟨hcount, hne⟩ := count_add_count hnodup hb
  have hnone : (visits (front ++ a :: back) own).filter (·.1 = b) = [] := by
    rw [List.filter_eq_nil_iff]
    rintro ⟨m, es⟩ hvisit hm
    obtain rfl : m = b := of_decide_eq_true hm
    obtain ⟨-, e, he, hblock, rfl⟩ := exists_visit_iff.1 ⟨es, hvisit⟩
    exact h.opens e he hblock hb
  have hback : (if own.any isEnd then [] else List.replicate (back.count b) (b, kept b)) =
      List.replicate (back.count b) (b, kept b) := by
    split
    · next hend =>
      have hnil : back = [] := by
        by_contra hback
        rw [h.ends hback] at hend
        cases hend
      rw [hnil]
      rfl
    · rfl
  rw [filter_callsAround hne, hnone, hback, List.nil_append, List.replicate_append_replicate, hcount]
  rfl

theorem handed_update (ha : a ∉ modules) : handed (Function.update kept a own) modules = handed kept modules := by
  refine List.map_congr_left fun m hm ↦ ?_
  rw [Function.update_of_ne]
  rintro rfl
  exact ha hm

end

section

variable {front back : List (BlockHook σ)} {a : BlockHook σ} {kept : String → List Entry} {own : List Entry}
  {d : Document} {i : ℕ}

theorem handed_map (kept : String → List Entry) (hooks : List (BlockHook σ)) :
    handed kept (hooks.map (·.module)) = hooks.map fun h ↦ (h.module, kept h.module) := by
  rw [handed, List.map_map]
  rfl

theorem visits_saved (front back : List (BlockHook σ)) (a : BlockHook σ) (own : List Entry)
    (hfront : a.module ∉ front.map (·.module)) (hback : a.module ∉ back.map (·.module))
    (hplain : ∀ m, ∀ e ∈ kept m, isMarker e.1 = false) (s : σ) (n : ℕ) :
    visits ((front ++ a :: back).map (·.module))
        ((blocksFrom (fun w _ ↦ Function.update kept a.module own w.module) s n (front ++ a :: back)).flatMap
          Block.list ++ [endEntry]) =
      callsAround kept (front.map (·.module)) (back.map (·.module)) a.module own := by
  let entries (w : BlockHook σ) (_ : σ) := Function.update kept a.module own w.module
  let block : Block := ⟨.ofNat (n + front.length), a.module, own⟩
  let behind := (blocksFrom entries s (n + front.length + 1) back).flatMap Block.list ++ [endEntry]
  have hsplit : (blocksFrom entries s n (front ++ a :: back)).flatMap Block.list ++ [endEntry] =
      (blocksFrom entries s n front).flatMap Block.list ++ (block.list ++ behind) := by
    have hown : Function.update kept a.module own a.module = own := Function.update_self ..
    simp only [blocksFrom, List.zipIdx_append, List.zipIdx_cons, List.map_append, List.map_cons, List.flatMap_append,
      List.flatMap_cons, List.append_assoc, behind, block, entries, hown]
  have hlisted (hooks : List (BlockHook σ)) (hsub : hooks ⊆ front ++ a :: back) :
      ∀ w ∈ hooks, w.module ∈ (front ++ a :: back).map (·.module) := fun w hw ↦ List.mem_map_of_mem (hsub hw)
  have hplain' (hooks : List (BlockHook σ)) (ha : a.module ∉ hooks.map (·.module)) :
      ∀ w ∈ hooks, ∀ e ∈ entries w s, isMarker e.1 = false := by
    intro w hw
    have hne : w.module ≠ a.module := fun heq ↦ ha (heq ▸ List.mem_map_of_mem hw)
    simp only [entries, Function.update_of_ne hne]
    exact hplain w.module
  have hbehind : visits ((front ++ a :: back).map (·.module)) behind = handed kept (back.map (·.module)) := by
    rw [visits_blocksFrom (hlisted back (by simp)) (hplain' back hback) (by simp [isMarker_endEntry]),
      visits_end (by decide), List.append_nil, ← handed_map, handed_update hback]
  have hmarker : ∀ e ∈ behind.head?, isMarker e.1 := isMarker_head_blocks _
  have hown : block.module ∈ (front ++ a :: back).map (·.module) := List.mem_map_of_mem (by simp)
  rw [hsplit,
    visits_blocksFrom (hlisted front (by simp)) (hplain' front hfront) (by simp [Block.list, Block.isMarker_opening]),
    ← handed_map, handed_update hfront, visits_list hown hmarker, visits_append hmarker, hbehind, callsAround,
    List.map_append, List.map_cons]

theorem writes_saving (kept : String → List Entry) (h : BlockHook σ) : (saving kept h).Writes fun _ ↦ kept h.module :=
  fun _ _ ↦ rfl

theorem map_module_saving (kept : String → List Entry) (hooks : List (BlockHook σ)) :
    (hooks.map (saving kept)).map (·.module) = hooks.map (·.module) := by
  rw [List.map_map]
  rfl

theorem calls_saved (hdistinct : ((front ++ a :: back).map (·.module)).Nodup)
    (hread : ∀ h ∈ front ++ a :: back, h.MovesOn) (hselected : d.selected = some i) (hopen : i < d.sections.length)
    (hempty : d.entries = []) (hplain : ∀ m, ∀ e ∈ kept m, isMarker e.1 = false) (own : List Entry) (s t : σ) :
    let hooks := (front ++ a :: back).map (saving (Function.update kept a.module own))
    ∃ written, enumWrite hooks s d = (.ok (), s, written) ∧
      ∀ c : Document, c.sections = written.sections → ∃ u last,
        enumRead hooks t (c.selectAt i) = some (.ok (), u, last) ∧
        readerCalls hooks t (c.selectAt i) =
          some (callsAround kept (front.map (·.module)) (back.map (·.module)) a.module own) := by
  intro hooks
  let saved := saving (σ := σ) (Function.update kept a.module own)
  obtain ⟨hfront, hback⟩ : a.module ∉ front.map (·.module) ∧ a.module ∉ back.map (·.module) := by
    rw [List.map_append, List.map_cons, List.nodup_append, List.nodup_cons] at hdistinct
    exact ⟨fun hmem ↦ hdistinct.2.2 _ hmem _ List.mem_cons_self rfl, hdistinct.2.1.1⟩
  have hwrite : ∀ w ∈ hooks, w.Writes fun _ ↦ Function.update kept a.module own w.module := by
    intro w hw
    obtain ⟨h, -, rfl⟩ := List.mem_map.1 hw
    exact writes_saving _ h
  have hreads : ∀ w ∈ hooks, w.MovesOn := by
    intro w hw
    obtain ⟨h, hh, rfl⟩ := List.mem_map.1 hw
    exact hread h hh
  refine ⟨_, enumWrite_eq hwrite (isSome_current? hselected hopen) s, fun c hsections ↦ ?_⟩
  obtain ⟨u, last, hran, hcalls⟩ := readerCalls_eq hreads t (c.selectAt i)
  refine ⟨u, last, hran, ?_⟩
  have hsplit : hooks = front.map saved ++ saved a :: back.map saved := by
    rw [← List.map_cons, ← List.map_append]
  have hvisits := visits_saved (front.map saved) (back.map saved) (saved a) own (by rwa [map_module_saving])
    (by rwa [map_module_saving]) hplain s (d.blocks.toNat + 1)
  rw [← hsplit, map_module_saving _ front, map_module_saving _ back] at hvisits
  rw [hcalls, entries_selectAt_extend hselected hopen hsections, hempty]
  exact congrArg some hvisits

theorem undisturbed_iff (hdistinct : ((front ++ a :: back).map (·.module)).Nodup)
    (hread : ∀ h ∈ front ++ a :: back, h.MovesOn) (hselected : d.selected = some i) (hopen : i < d.sections.length)
    (hempty : d.entries = []) (hplain : ∀ m, ∀ e ∈ kept m, isMarker e.1 = false) (own : List Entry) (s t : σ) :
    Undisturbed (front ++ a :: back) (Function.update kept a.module own) a.module d i s t ↔
      ∀ b ∈ front.map (·.module) ++ back.map (·.module),
        (callsAround kept (front.map (·.module)) (back.map (·.module)) a.module own).filter (·.1 = b) =
          [(b, kept b)] := by
  obtain ⟨written, hwritten, hagain⟩ := calls_saved hdistinct hread hselected hopen hempty hplain own s t
  rw [List.map_append, List.map_cons] at hdistinct
  constructor
  · rintro ⟨written', hwritten', hagain'⟩ b hb
    rw [hwritten] at hwritten'
    cases hwritten'
    obtain ⟨-, -, -, hcalls⟩ := hagain written rfl
    obtain ⟨-, -, calls, -, hcalls', hfilter⟩ := hagain' written rfl
    rw [hcalls] at hcalls'
    obtain rfl := Option.some.inj hcalls'
    have hne := (count_add_count hdistinct hb).2
    obtain ⟨h, hh, rfl⟩ : ∃ h ∈ front ++ a :: back, h.module = b := by
      rw [← List.map_append] at hb
      obtain ⟨h, hh, hmodule⟩ := List.mem_map.1 hb
      refine ⟨h, ?_, hmodule⟩
      rw [List.mem_append, List.mem_cons]
      exact (List.mem_append.1 hh).imp id .inr
    have hown := hfilter h hh hne
    rwa [Function.update_of_ne hne] at hown
  · intro hfilter
    refine ⟨written, hwritten, fun c hsections ↦ ?_⟩
    obtain ⟨u, last, hran, hcalls⟩ := hagain c hsections
    refine ⟨u, last, _, hran, hcalls, fun h hh hne ↦ ?_⟩
    have hother : h.module ∈ front.map (·.module) ++ back.map (·.module) := by
      rw [← List.map_append]
      refine List.mem_map_of_mem ?_
      rcases List.mem_append.1 hh with hfront | hback
      · exact List.mem_append_left _ hfront
      · rcases List.mem_cons.1 hback with rfl | hback
        · exact absurd rfl hne
        · exact List.mem_append_right _ hback
    rw [Function.update_of_ne hne]
    exact hfilter h.module hother

/-- Whatever the other modules keep in plain entries, their readers come to just that, and once, if and only if what
the one module writes is harmless. -/
theorem undisturbed_iff_harmless (hdistinct : ((front ++ a :: back).map (·.module)).Nodup)
    (hread : ∀ h ∈ front ++ a :: back, h.MovesOn) (hselected : d.selected = some i) (hopen : i < d.sections.length)
    (hempty : d.entries = []) (own : List Entry) (s t : σ) :
    (∀ kept : String → List Entry, (∀ m, ∀ e ∈ kept m, isMarker e.1 = false) →
      Undisturbed (front ++ a :: back) (Function.update kept a.module own) a.module d i s t) ↔
    Harmless (front.map (·.module)) (back.map (·.module)) own := by
  have hnodup := hdistinct
  rw [List.map_append, List.map_cons] at hnodup
  constructor
  · intro h
    refine harmless_of_undisturbed hnodup fun kept hplain b hb ↦ ?_
    exact (undisturbed_iff hdistinct hread hselected hopen hempty hplain own s t).1 (h kept hplain) b hb
  · intro h kept hplain
    rw [undisturbed_iff hdistinct hread hselected hopen hempty hplain]
    exact fun b hb ↦ undisturbed_of_harmless hnodup h kept hb

end

def buffAndMail : List (BlockHook (List Entry)) := [collecting "buff" [], collecting "mail" []]

def newSection : Document := ⟨[⟨"1001", []⟩], some 0, none, 0, .unique⟩

def oneUnread (module : String) : List Entry := if module = "mail" then [("Unread", "0")] else []

theorem movesOn_collecting (module : String) (own : List Entry) : (collecting module own).MovesOn :=
  ⟨_, reads_collecting module own⟩

theorem undisturbed_iff_harmless_odd_keys :
    (∀ kept : String → List Entry, (∀ m, ∀ e ∈ kept m, isMarker e.1 = false) →
      Undisturbed buffAndMail
        (Function.update kept "buff" [("Stacks", "3"), ("ModuleDataX", "buff"), ("ModuleData", "x")]) "buff" newSection
        0 [] []) ∧
    ¬ ∀ kept : String → List Entry, (∀ m, ∀ e ∈ kept m, isMarker e.1 = false) →
      Undisturbed buffAndMail (Function.update kept "buff" [("EnumEnds", "never")]) "buff" newSection 0 [] [] := by
  have hread : ∀ h ∈ [] ++ collecting "buff" [] :: [collecting "mail" []], h.MovesOn := by
    intro h hh
    simp only [List.nil_append, List.mem_cons, List.not_mem_nil, or_false] at hh
    rcases hh with rfl | rfl <;> exact movesOn_collecting _ _
  have hiff (own : List Entry) := undisturbed_iff_harmless (d := newSection) (i := 0) (by decide) hread rfl (by decide)
    rfl own [] []
  refine ⟨(hiff _).2 ⟨by decide, by decide⟩, fun h ↦ ?_⟩
  exact absurd (((hiff _).1 h).ends (by decide)) (by decide)

/-- A module that opens a block in the name of another hands entries of its own to the other's reader, and one that
writes an end entry keeps the blocks behind its own from their readers. -/
theorem forged_disturbed :
    ¬ Undisturbed buffAndMail (Function.update oneUnread "buff" [("ModuleData7", "mail"), ("Unread", "9")]) "buff"
        newSection 0 [] [] ∧
      ¬ Undisturbed buffAndMail (Function.update oneUnread "buff" [("EnumEnd", "0")]) "buff" newSection 0 [] [] := by
  have hcalls (own : List Entry) (calls : List Visit)
      (hcalls : readerCalls (buffAndMail.map (saving (Function.update oneUnread "buff" own))) []
        ((enumWrite (buffAndMail.map (saving (Function.update oneUnread "buff" own))) [] newSection).2.2.selectAt 0) =
          some calls)
      (hmail : calls.filter (·.1 = "mail") ≠ [("mail", [("Unread", "0")])]) :
      ¬ Undisturbed buffAndMail (Function.update oneUnread "buff" own) "buff" newSection 0 [] [] := by
    rintro ⟨written, hwritten, hagain⟩
    obtain ⟨-, -, calls', -, hcalls', hfilter⟩ := hagain written rfl
    obtain rfl : _ = written := congrArg (·.2.2) hwritten
    rw [hcalls] at hcalls'
    obtain rfl := Option.some.inj hcalls'
    exact hmail (hfilter (collecting "mail" []) (by simp [buffAndMail]) (by decide))
  constructor
  · exact hcalls _ [("buff", []), ("mail", [("Unread", "9")]), ("mail", [("Unread", "0")])] (by decide) (by decide)
  · exact hcalls _ [("buff", [])] (by decide) (by decide)

end GameHost.Document
