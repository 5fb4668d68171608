import GameHost.Proofs.Document.Progress
import Mathlib.Data.List.Induction

namespace GameHost

inductive DocumentCall
  | select (name : String)
  | write (key value : String)
  | next
  | prev
  deriving DecidableEq

namespace DocumentCall

/-- The document afterwards. It is the same if there is no section to write to, or no entry to move to. -/
def perform : DocumentCall → Document → Document
  | select name, d => d.select name
  | write key value, d => (d.write key value).toOption.getD d
  | next, d => d.next?.getD d
  | prev, d => d.prev?.getD d

def run (cs : List DocumentCall) : Document := cs.foldl (fun d c ↦ c.perform d) .empty

def selected? : DocumentCall → Option String
  | select name => some name
  | _ => none

def names (cs : List DocumentCall) : List String := cs.filterMap selected?

def selection (cs : List DocumentCall) : Option String := (names cs).getLast?

/-- The entries that are written while the section is selected; `here?` is the name selected before. -/
def written (name : String) (here? : Option String) : List DocumentCall → List Entry
  | [] => []
  | select other :: cs => written name (some other) cs
  | write key value :: cs => (if here? = some name then [(key, value)] else []) ++ written name here? cs
  | next :: cs | prev :: cs => written name here? cs

variable {name : String} {here? : Option String} {cs : List DocumentCall}

theorem names_concat (cs : List DocumentCall) (c : DocumentCall) :
    names (cs ++ [c]) = names cs ++ c.selected?.toList := by
  rw [names, List.filterMap_append]
  cases c <;> rfl

theorem selection_cons (cs : List DocumentCall) : selection (select name :: cs) = some ((selection cs).getD name) :=
  List.getLast?_cons

theorem selection_concat (cs : List DocumentCall) (c : DocumentCall) :
    selection (cs ++ [c]) = c.selected?.or (selection cs) := by
  rw [selection, names_concat]
  cases c.selected? with
  | none => exact congrArg _ (List.append_nil _)
  | some name => exact List.getLast?_concat

theorem written_append (cs cs' : List DocumentCall) :
    written name here? (cs ++ cs') = written name here? cs ++ written name ((selection cs).or here?) cs' := by
  induction cs generalizing here? with
  | nil => rfl
  | cons c cs ih =>
    cases c with
    | select other =>
      rw [List.cons_append, written, written, ih, selection_cons]
      cases selection cs <;> rfl
    | write key value =>
      rw [List.cons_append, written, written, ih, List.append_assoc]
      rfl
    | next | prev => exact ih

theorem written_of_unselected (hname : name ∉ names cs) (hhere : here? ≠ some name) : written name here? cs = [] := by
  induction cs generalizing here? with
  | nil => rfl
  | cons c cs ih =>
    cases c with
    | select other =>
      have hnames : names (select other :: cs) = other :: names cs := rfl
      rw [hnames, List.mem_cons, not_or] at hname
      exact ih hname.2 fun heq ↦ hname.1 (Option.some.inj heq).symm
    | write key value =>
      rw [written, if_neg hhere, List.nil_append]
      exact ih hname hhere
    | next | prev => exact ih hname hhere

theorem run_concat (cs : List DocumentCall) (c : DocumentCall) : run (cs ++ [c]) = c.perform (run cs) := by
  rw [run, List.foldl_append]
  rfl

end DocumentCall

/-! ### Entries -/

theorem eraseDups_concat (l : List String) (a : String) :
    (l ++ [a]).eraseDups = if a ∈ l then l.eraseDups else l.eraseDups ++ [a] := by
  rw [List.eraseDups_append, List.removeAll]
  split
  · next hmem => simp [hmem]
  · next hmem => simp [hmem, List.eraseDups_cons]

theorem nodup_eraseDups (l : List String) : l.eraseDups.Nodup := by
  induction l using List.reverseRecOn with
  | nil => exact List.nodup_nil
  | append_singleton l a ih =>
    rw [eraseDups_concat]
    split
    · exact ih
    · next hmem =>
      rw [← List.concat_eq_append]
      exact ih.concat (by rwa [List.mem_eraseDups])

theorem lookup_cons_ite (e : Entry) (es : List Entry) (key : String) :
    (e :: es).lookup key = if key = e.1 then some e.2 else es.lookup key := by
  rw [List.lookup_cons]
  split
  · next heq => rw [if_pos (eq_of_beq heq)]
  · next hne => rw [if_neg (ne_of_beq_false hne)]

/-- What is left of entries that were written one after another: one entry for each key, in the order of the first
writes, with the value of the last. -/
structure Latest (written es : List Entry) : Prop where
  keys : es.map (·.1) = (written.map (·.1)).eraseDups
  value (key : String) : es.lookup key = written.reverse.lookup key

namespace Document

theorem lookup_putEntry (key value : String) (es : List Entry) (other : String) :
    (putEntry key value es).lookup other = if other = key then some value else es.lookup other := by
  induction es with
  | nil => exact lookup_cons_ite _ _ _
  | cons e es ih =>
    rw [putEntry]
    split
    · next hkey =>
      rw [lookup_cons_ite, lookup_cons_ite, hkey]
      split <;> rfl
    · next hkey =>
      rw [lookup_cons_ite, lookup_cons_ite, ih]
      by_cases hother : other = key
      · subst hother
        rw [if_neg (Ne.symm hkey), if_pos rfl, if_pos rfl]
      · rw [if_neg hother, if_neg hother]

theorem exists_write {d : Document} {i : ℕ} (hmode : d.mode = .unique) (hin : d.InBounds)
    (hselected : d.selected = some i) (key value : String) :
    ∃ front s back, d.sections = front ++ s :: back ∧ front.length = i ∧ d.write key value =
      .ok { d with sections := front ++ { s with entries := putEntry key value s.entries } :: back } := by
  obtain ⟨front, s, back, hsections, hlength, hmodify⟩ :=
    List.exists_of_modify (Section.write d.mode key value) (hin.selected i hselected)
  refine ⟨front, s, back, hsections, hlength, ?_⟩
  rw [hmode] at hmodify
  rw [write, hselected, hmode]
  simp only [hmodify]
  rfl

end Document

theorem Latest.put {written es : List Entry} (h : Latest written es) (key value : String) :
    Latest (written ++ [(key, value)]) (Document.putEntry key value es) where
  keys := by
    rw [Document.keys_putEntry_eq, h.keys, List.map_append, List.map_singleton, eraseDups_concat]
    simp only [List.mem_eraseDups]
  value other := by
    rw [Document.lookup_putEntry, h.value, List.reverse_append, List.reverse_singleton, List.singleton_append,
      lookup_cons_ite]

/-! ### Sections -/

open DocumentCall

structure Records (cs : List DocumentCall) (d : Document) : Prop where
  mode : d.mode = .unique
  inBounds : d.InBounds
  sections : d.sections.map (·.name) = (names cs).eraseDups
  selected : d.sectionName? = selection cs
  latest : ∀ s ∈ d.sections, Latest (written s.name none cs) s.entries

namespace Records

variable {cs : List DocumentCall} {d d' : Document} {c : DocumentCall}

theorem nodup_names (h : Records cs d) : (d.sections.map (·.name)).Nodup := by
  rw [h.sections]
  exact nodup_eraseDups _

theorem mem_names (h : Records cs d) {s : Section} (hs : s ∈ d.sections) : s.name ∈ names cs := by
  rw [← List.mem_eraseDups, ← h.sections]
  exact List.mem_map_of_mem hs

theorem written_concat (name : String) (cs : List DocumentCall) (c : DocumentCall) :
    written name none (cs ++ [c]) = written name none cs ++ written name (selection cs) [c] := by
  rw [written_append, Option.or_none]

theorem select (h : Records cs d) (name : String) : Records (cs ++ [.select name]) (d.select name) := by
  have hwritten (s : Section) : written s.name none (cs ++ [.select name]) = written s.name none cs := by
    rw [written_concat]
    exact List.append_nil _
  have hnames : names (cs ++ [.select name]) = names cs ++ [name] := names_concat cs (.select name)
  rw [Document.select]
  cases hfind : d.sections.findIdx? (·.name == name) with
  | some i =>
    obtain ⟨hi, hname, -⟩ := List.findIdx?_eq_some_iff_getElem.1 hfind
    have hname' : d.sections[i].name = name := eq_of_beq hname
    have hmem : name ∈ names cs := hname' ▸ h.mem_names (List.getElem_mem hi)
    refine ⟨h.mode, Document.inBounds_selectAt hi, ?_, ?_, ?_⟩
    · rw [hnames, eraseDups_concat, if_pos hmem]
      exact h.sections
    · rw [selection_concat]
      simp [Document.sectionName?, Document.current?, Document.selectAt, selected?, hi, hname']
    · intro s hs
      rw [hwritten]
      exact h.latest s hs
  | none =>
    have hmem : name ∉ names cs := by
      rw [← List.mem_eraseDups, ← h.sections]
      simpa using hfind
    have hsections : (d.addSection name).sections = d.sections ++ [⟨name, []⟩] := rfl
    refine ⟨h.mode, Document.inBounds_selectAt (by simp [hsections]), ?_, ?_, ?_⟩
    · rw [hnames, eraseDups_concat, if_neg hmem, ← h.sections]
      exact List.map_append
    · rw [selection_concat]
      simp [Document.sectionName?, Document.current?, Document.selectAt, selected?, hsections]
    · intro s hs
      rw [hwritten]
      rcases List.mem_append.1 hs with hs | hs
      · exact h.latest s hs
      · obtain rfl := List.mem_singleton.1 hs
        -- A section that is new has not been written to before.
        have hnone : written name none cs = [] := written_of_unselected hmem (Option.some_ne_none name).symm
        rw [hnone]
        exact ⟨rfl, fun _ ↦ rfl⟩

theorem idle (h : Records cs d) (hselects : c.selected? = none)
    (hwrites : ∀ name, written name (selection cs) [c] = []) (hin : d'.InBounds)
    (hsections : d'.sections = d.sections) (hselected : d'.selected = d.selected) (hmode : d'.mode = d.mode) :
    Records (cs ++ [c]) d' := by
  have hnames : names (cs ++ [c]) = names cs := by
    rw [names_concat, hselects, Option.toList_none, List.append_nil]
  refine ⟨hmode.trans h.mode, hin, ?_, ?_, ?_⟩
  · rw [hnames, hsections, h.sections]
  · rw [selection_concat, hselects, Option.none_or, ← h.selected, Document.sectionName?, Document.sectionName?,
      Document.current?, Document.current?, hsections, hselected]
  · intro s hs
    rw [written_concat, hwrites, List.append_nil]
    exact h.latest s (hsections ▸ hs)

theorem moved (h : Records cs d) (hselects : c.selected? = none)
    (hwrites : ∀ name, written name (selection cs) [c] = []) {a : Act} :
    Records (cs ++ [c]) ((a.moved? d).getD d) := by
  cases hmoved : a.moved? d with
  | none => exact h.idle hselects hwrites h.inBounds rfl rfl rfl
  | some d' =>
    obtain ⟨i, hto⟩ := Act.exists_of_moved hmoved
    have hin := h.inBounds.touch (Document.touch_of_moveTo hto)
    obtain ⟨-, rfl⟩ := Document.moveTo?_eq_some.1 hto
    exact h.idle hselects hwrites hin rfl rfl rfl

theorem sectionName?_eq (h : Records cs d) {front back : List Section} {s : Section}
    (hselected : d.selected = some front.length) (hsections : d.sections = front ++ s :: back) :
    selection cs = some s.name := by
  rw [← h.selected, Document.sectionName?, Document.current?, hselected, hsections]
  simp

theorem write (h : Records cs d) (key value : String) :
    Records (cs ++ [.write key value]) ((DocumentCall.write key value).perform d) := by
  rw [perform]
  cases hselected : d.selected with
  | none =>
    have hunselected : selection cs = none := by
      rw [← h.selected, Document.sectionName?, Document.current?, hselected]
      rfl
    rw [Document.write, hselected]
    refine h.idle rfl (fun name ↦ ?_) h.inBounds rfl rfl rfl
    rw [hunselected]
    rfl
  | some i =>
    obtain ⟨front, s, back, hsections, rfl, hwrite⟩ := Document.exists_write h.mode h.inBounds hselected key value
    have hin := h.inBounds.write hwrite
    have hname := h.sectionName?_eq hselected hsections
    have hnames : names (cs ++ [.write key value]) = names cs :=
      (names_concat cs _).trans (List.append_nil _)
    have hwritten (name : String) : written name none (cs ++ [.write key value]) =
        written name none cs ++ if s.name = name then [(key, value)] else [] := by
      rw [written_concat, hname, DocumentCall.written, DocumentCall.written, List.append_nil]
      simp only [Option.some.injEq]
    -- No other section has the name, so that the write is on record for this one only.
    have hothers := h.nodup_names
    rw [hsections, List.map_append, List.map_cons, List.nodup_middle, List.nodup_cons, ← List.map_append] at hothers
    rw [hwrite]
    show Records _ { d with sections := front ++ { s with entries := Document.putEntry key value s.entries } :: back }
    refine ⟨h.mode, hin, ?_, ?_, ?_⟩
    · rw [hnames, ← h.sections, hsections]
      simp only [List.map_append, List.map_cons]
    · rw [selection_concat, hname]
      simp [Document.sectionName?, Document.current?, selected?, hselected]
    · intro t ht
      rw [hwritten]
      rcases List.mem_cons.1 (List.perm_middle.mem_iff.1 ht) with rfl | ht
      · rw [if_pos rfl]
        exact (h.latest s (by simp [hsections])).put key value
      · have hother : s.name ≠ t.name := fun heq ↦ hothers.1 (heq ▸ List.mem_map_of_mem ht)
        rw [if_neg hother, List.append_nil]
        exact h.latest t (hsections ▸ List.perm_middle.mem_iff.2 (List.mem_cons_of_mem s ht))

end Records

theorem run_records (cs : List DocumentCall) : Records cs (run cs) := by
  induction cs using List.reverseRecOn with
  | nil => exact ⟨rfl, Document.inBounds_ofSections [], rfl, rfl, nofun⟩
  | append_singleton cs c ih =>
    rw [run_concat]
    cases c with
    | select name => exact ih.select name
    | write key value => exact ih.write key value
    | next => exact ih.moved (a := .next) rfl fun _ ↦ rfl
    | prev => exact ih.moved (a := .prev) rfl fun _ ↦ rfl

namespace Records

variable {cs : List DocumentCall} {d : Document}

theorem find?_eq (h : Records cs d) (key : String) :
    d.find? key = (selection cs).bind fun name ↦ (written name none cs).reverse.lookup key := by
  rw [← h.selected, Document.sectionName?, Document.find?, Document.entries]
  cases hcurrent : d.current? with
  | none => rfl
  | some s =>
    obtain ⟨i, -, hat⟩ := Option.bind_eq_some_iff.1 hcurrent
    exact (h.latest s (List.mem_of_getElem? hat)).value key

end Records

namespace Document

variable {d : Document}

theorem write_elsewhere {i : ℕ} (hmode : d.mode = .unique) (hin : d.InBounds) (hselected : d.selected = some i)
    (key value : String) :
    ∃ d', d.write key value = .ok d' ∧ (∀ j ≠ i, d'.sections[j]? = d.sections[j]?) ∧
      ∀ other, d'.find? other = if other = key then some value else d.find? other := by
  obtain ⟨front, s, back, hsections, rfl, hwrite⟩ := exists_write hmode hin hselected key value
  have hat : d.current? = some s := by simp [current?, hselected, hsections]
  refine ⟨_, hwrite, ?_, ?_⟩
  · intro j hj
    rw [hsections, List.getElem?_append, List.getElem?_append]
    split
    · rfl
    · next hlt =>
      obtain ⟨k, hk⟩ : ∃ k, j - front.length = k + 1 := ⟨j - front.length - 1, by omega⟩
      rw [hk, List.getElem?_cons_succ, List.getElem?_cons_succ]
  · intro other
    rw [find?, find?, entries, entries, current?_write hwrite, hat, hmode]
    exact lookup_putEntry key value s.entries other

/-! ### Going over the entries -/

inductive Passes (step : Document → Option Document) : Document → List Entry → Document → Prop
  | nil {d : Document} : Passes step d [] d
  | cons {d d' last : Document} {e : Entry} {es : List Entry} (hstep : step d = some d') (hentry : d'.entry? = some e)
      (hrest : Passes step d' es last) : Passes step d (e :: es) last

theorem passes_next {n : ℕ} (hn : n ≤ d.upcoming.length) :
    Passes next? d (d.upcoming.take n) (d.advance n) ∧ (d.advance n).upcoming = d.upcoming.drop n := by
  induction n generalizing d with
  | zero => exact ⟨.nil, rfl⟩
  | succ n ih =>
    cases hupcoming : d.upcoming with
    | nil =>
      rw [hupcoming] at hn
      cases hn
    | cons e es =>
      obtain ⟨hnext, hentry, hes⟩ := next?_of_cons hupcoming
      rw [hupcoming, List.length_cons] at hn
      obtain ⟨hpasses, hrest⟩ := ih (d := d.advance 1) (hes ▸ Nat.le_of_succ_le_succ hn)
      rw [hes, advance_advance, Nat.add_comm] at hpasses hrest
      exact ⟨.cons hnext hentry hpasses, hrest⟩

theorem passes_prev {i : ℕ} (hi : i ≤ d.entries.length) (hplain : ∀ e ∈ d.entries.take i, isMarker e.1 = false) :
    Passes prev? { d with cursor := some i } (d.entries.take i).reverse { d with cursor := some 0 } := by
  induction i with
  | zero => exact .nil
  | succ i ih =>
    have hat : d.entries[i]? = some d.entries[i] := List.getElem?_eq_getElem hi
    have htake : d.entries.take (i + 1) = d.entries.take i ++ [d.entries[i]] := by
      rw [List.take_add_one, hat, Option.toList_some]
    rw [htake] at hplain ⊢
    have hhere : isMarker d.entries[i].1 = false := hplain _ (List.mem_append_right _ List.mem_cons_self)
    have hprev : prev? { d with cursor := some (i + 1) } = some { d with cursor := some i } :=
      moveTo?_eq_some.2 ⟨⟨_, by rw [keys, List.getElem?_map]; exact congrArg _ hat, hhere⟩, rfl⟩
    rw [List.reverse_append, List.reverse_singleton, List.singleton_append]
    exact .cons hprev hat (ih (Nat.le_of_succ_le hi) fun e he ↦ hplain e (List.mem_append_left _ he))

theorem passes_there_and_back (hcursor : d.cursor = none) {plain : List Entry}
    (hplain : d.entries.takeWhile (fun e ↦ !isMarker e.1) = plain) {j : ℕ} (hj : j ≤ plain.length) :
    ∃ mid first, Passes next? d (plain.take j) mid ∧ (mid.next? = none ↔ j = plain.length) ∧
      Passes prev? mid (plain.take j).dropLast.reverse first ∧ first.prev? = none := by
  have hahead : d.ahead = 0 := by rw [ahead, hcursor, Option.elim_none]
  have hupcoming : d.upcoming = plain := by rw [upcoming, hahead, List.drop_zero, hplain]
  obtain ⟨hthere, hleft⟩ := passes_next (hupcoming ▸ hj)
  rw [hupcoming] at hthere hleft
  have hend : (d.advance j).next? = none ↔ j = plain.length := by
    rw [next?_eq_none_iff, hleft, List.drop_eq_nil_iff]
    omega
  cases j with
  | zero => exact ⟨d, d, hthere, hend, .nil, by rw [prev?, hcursor]⟩
  | succ k =>
    obtain ⟨rest, hentries⟩ := List.takeWhile_prefix (l := d.entries) fun e ↦ !isMarker e.1
    rw [hplain] at hentries
    -- The cursor stands on the last of the entries that it has come to, so the way back is over the others.
    have hback : (plain.take (k + 1)).dropLast = d.entries.take k := by
      have hlength : min (min (k + 1) plain.length - 1) (k + 1) = k := by omega
      rw [List.dropLast_eq_take, List.length_take, List.take_take, hlength, ← hentries,
        List.take_append_of_le_length (Nat.le_of_succ_le hj)]
    have hadvance : d.advance (k + 1) = { d with cursor := some k } := by
      rw [advance, if_neg (Nat.succ_ne_zero k), hahead, Nat.zero_add, Nat.add_sub_cancel]
    have hbound : k ≤ d.entries.length := by
      rw [← hentries, List.length_append]
      omega
    refine ⟨_, { d with cursor := some 0 }, hthere, hend, ?_, rfl⟩
    rw [hback, hadvance]
    refine passes_prev hbound fun e he ↦ ?_
    rw [← hback, ← hplain] at he
    simpa using List.mem_takeWhile_imp (List.mem_of_mem_take (List.dropLast_subset _ he))

theorem cursor_select (d : Document) (name : String) : (d.select name).cursor = none := by
  obtain ⟨c, i, hselect, -, -⟩ := exists_selectAt d name
  rw [hselect]
  rfl

end Document

namespace DocumentCall

open Document

/-- However calls follow one another, the document is an ordered map of ordered maps: sections and keys stand in the
order of their first use, each once, the last write of a key counts, and the cursor goes over each entry once. -/
theorem run_ordered (cs : List DocumentCall) : ∃ d, run cs = d ∧
    ((d.sections.map (·.name)).Nodup ∧ d.sections.map (·.name) = (names cs).eraseDups) ∧
    (∀ s ∈ d.sections, (s.entries.map (·.1)).Nodup ∧
      s.entries.map (·.1) = ((written s.name none cs).map (·.1)).eraseDups) ∧
    (∀ key, d.find? key = (selection cs).bind fun name ↦ (written name none cs).reverse.lookup key) ∧
    (∀ i key value, d.selected = some i → ∃ d', d.write key value = .ok d' ∧
      (∀ j ≠ i, d'.sections[j]? = d.sections[j]?) ∧
      ∀ other, d'.find? other = if other = key then some value else d.find? other) ∧
    (∀ name, (d.select name).cursor = none) ∧
    (d.cursor = none → ∃ plain, d.entries.takeWhile (fun e ↦ !isMarker e.1) = plain ∧ ∀ j ≤ plain.length, ∃ mid first,
      Passes next? d (plain.take j) mid ∧ (mid.next? = none ↔ j = plain.length) ∧
      Passes prev? mid (plain.take j).dropLast.reverse first ∧ first.prev? = none) := by
  have h := run_records cs
  refine ⟨_, rfl, ⟨h.nodup_names, h.sections⟩, ?_, h.find?_eq, ?_, cursor_select _, ?_⟩
  · intro s hs
    rw [(h.latest s hs).keys]
    exact ⟨nodup_eraseDups _, rfl⟩
  · intro i key value hselected
    exact write_elsewhere h.mode h.inBounds hselected key value
  · intro hcursor
    exact ⟨_, rfl, fun j hj ↦ passes_there_and_back hcursor rfl hj⟩

def ledger : List DocumentCall :=
  [.select "1001", .write "Level" "3", .write "Name" "Arden", .select "1002", .write "Level" "7", .next,
    .select "1001", .write "Level" "4", .write "ModuleData1" "mail", .write "Unread" "2"]

theorem run_ordered_ledger :
    (run ledger).sections = [⟨"1001", [("Level", "4"), ("Name", "Arden"), ("ModuleData1", "mail"), ("Unread", "2")]⟩,
      ⟨"1002", [("Level", "7")]⟩] ∧
    (run ledger).find? "Level" = some "4" ∧
    ∃ mid first, Passes next? (run ledger) [("Level", "4"), ("Name", "Arden")] mid ∧ mid.next? = none ∧
      Passes prev? mid [("Level", "4")] first ∧ first.prev? = none := by
  obtain ⟨d, hrun, -, -, hfind, -, -, hcursor⟩ := run_ordered ledger
  obtain ⟨plain, hplain, hpasses⟩ := hcursor (hrun ▸ rfl)
  have hplain' : plain = [("Level", "4"), ("Name", "Arden")] := by
    rw [← hplain, ← hrun]
    rfl
  subst hrun hplain'
  obtain ⟨mid, first, hthere, hend, hback, hfirst⟩ := hpasses 2 (by decide)
  refine ⟨rfl, ?_, mid, first, hthere, hend.2 rfl, hback, hfirst⟩
  rw [hfind]
  rfl

end DocumentCall
end GameHost
