import GameHost.Document.Text
import GameHost.Proofs.Sequencing
import GameHost.Proofs.Text.Blank

namespace GameHost

structure CleanText (s : String) : Prop where
  oneLine : '\n' ∉ s.toList
  trimmed : Text.trimText s = s

structure CleanEntry (e : String × String) : Prop where
  key : CleanText e.1
  value : CleanText e.2
  noEquals : '=' ∉ e.1.toList
  noComment : e.1.toList.head? ≠ some ';' ∧ e.1.toList.head? ≠ some '#'
  noBrackets : ¬(e.1.toList.head? = some '[' ∧ e.2.toList.getLast? = some ']')

structure Section.Clean (s : Section) : Prop where
  name : CleanText s.name
  entries : ∀ e ∈ s.entries, CleanEntry e

theorem Section.clean_nil {name : String} (h : CleanText name) : Section.Clean ⟨name, []⟩ :=
  ⟨h, fun _ he ↦ absurd he List.not_mem_nil⟩

theorem Section.Clean.concat {s : Section} {e : String × String} (h : s.Clean) (he : CleanEntry e) :
    Section.Clean { s with entries := s.entries ++ [e] } := by
  refine ⟨h.name, ?_⟩
  intro e' he'
  rcases List.mem_append.1 he' with he' | he'
  · exact h.entries e' he'
  · rwa [List.mem_singleton.1 he']

def Document.Clean (d : Document) : Prop := ∀ s ∈ d.sections, s.Clean

namespace Line

variable {cs l key value : List Char}

theorem cleanText_trimmed (h : '\n' ∉ cs) : CleanText (trimmed cs) where
  oneLine := by
    rw [trimmed, String.toList_ofList]
    exact fun hmem ↦ h ((Text.trim_sublist cs).mem hmem)
  trimmed := by rw [Text.trimText, trimmed, String.toList_ofList, Text.trim_trim]

theorem trimmed_of_clean {s : String} (h : CleanText s) : trimmed s.toList = s :=
  h.trimmed

/-! ### Lines -/

theorem split_append (h : '\n' ∉ l) (cs : List Char) : split (l ++ '\n' :: cs) = l :: split cs := by
  induction l with
  | nil => rw [List.nil_append, split, if_pos rfl]
  | cons c l ih =>
    rw [List.mem_cons, not_or] at h
    rw [List.cons_append, split, if_neg (Ne.symm h.1), ih h.2]

theorem split_flatMap {ls : List (List Char)} (h : ∀ l ∈ ls, '\n' ∉ l) :
    split (ls.flatMap (· ++ ['\n'])) = ls ++ [[]] := by
  induction ls with
  | nil => rfl
  | cons l ls ih =>
    rw [List.flatMap_cons, List.append_assoc, List.singleton_append, split_append (h l List.mem_cons_self),
      ih fun l hl ↦ h l (List.mem_cons_of_mem _ hl), List.cons_append]

theorem not_mem_of_mem_split (h : l ∈ split cs) : '\n' ∉ l := by
  induction cs generalizing l with
  | nil =>
    rw [split, List.mem_singleton] at h
    simp [h]
  | cons c cs ih =>
    rw [split] at h
    split at h
    · rcases List.mem_cons.1 h with rfl | h
      · simp
      · exact ih h
    · next hc =>
      cases hrest : split cs with
      | nil =>
        rw [hrest, List.mem_singleton] at h
        simp [h, Ne.symm hc]
      | cons l' ls =>
        rw [hrest] at h ih
        rcases List.mem_cons.1 h with rfl | h
        · simp [Ne.symm hc, ih List.mem_cons_self]
        · exact ih (List.mem_cons_of_mem _ h)

/-! ### What a line is read as -/

def Special (cs : List Char) : Prop :=
  (cs.head? = some ';' ∨ cs.head? = some '#') ∨ cs.head? = some '[' ∧ cs.getLast? = some ']'

/-- What a line without blanks at its ends stands for. -/
inductive Denotes : List Char → Line → Prop
  | empty : Denotes [] .blank
  | comment {c : Char} {cs : List Char} (h : c = ';' ∨ c = '#') : Denotes (c :: cs) .blank
  | heading (name : List Char) : Denotes ('[' :: (name ++ [']'])) (.heading (trimmed name))
  | entry {key value : List Char} (hkey : '=' ∉ key) (h : ¬Special (key ++ '=' :: value)) :
      Denotes (key ++ '=' :: value) (.entry (trimmed key) (trimmed value))
  | junk {cs : List Char} (hne : cs ≠ []) (h : ¬Special cs) (hnone : '=' ∉ cs) : Denotes cs .junk

theorem special_cons {c : Char} :
    Special (c :: cs) ↔ (c = ';' ∨ c = '#') ∨ c = '[' ∧ cs.getLast? = some ']' := by
  rw [Special, List.head?_cons, List.getLast?_cons]
  simp only [Option.some.injEq]
  refine or_congr_right (and_congr_right ?_)
  rintro rfl
  cases cs.getLast? with
  | none => decide
  | some c => rw [Option.getD_some, Option.some.injEq]

theorem takeWhile_key (hkey : '=' ∉ key) : (key ++ '=' :: value).takeWhile (· ≠ '=') = key := by
  rw [List.takeWhile_append_of_pos, List.takeWhile_cons_of_neg (by simp), List.append_nil]
  intro c hc
  simpa using ne_of_mem_of_not_mem hc hkey

theorem dropWhile_key (hkey : '=' ∉ key) : (key ++ '=' :: value).dropWhile (· ≠ '=') = '=' :: value := by
  rw [List.dropWhile_append_of_pos, List.dropWhile_cons_of_neg (by simp)]
  intro c hc
  simpa using ne_of_mem_of_not_mem hc hkey

theorem ofTrimmed_denotes (cs : List Char) : Denotes cs (ofTrimmed cs) := by
  cases cs with
  | nil => exact .empty
  | cons c cs =>
    rw [ofTrimmed]
    split
    · next hcomment => exact .comment hcomment
    · next hcomment =>
      split
      · next hheading =>
        obtain ⟨rfl, hlast⟩ := hheading
        obtain ⟨name, rfl⟩ := List.getLast?_eq_some_iff.1 hlast
        rw [List.dropLast_concat]
        exact .heading name
      · next hheading =>
        have hspecial : ¬Special (c :: cs) := by
          rw [special_cons, not_or]
          exact ⟨hcomment, hheading⟩
        by_cases hequals : '=' ∈ c :: cs
        · obtain ⟨key, value, hline, hkey⟩ := List.eq_append_cons_of_mem hequals
          rw [hline] at hspecial
          simp only [hline, dropWhile_key hkey, takeWhile_key hkey]
          exact .entry hkey hspecial
        · have hnone : (c :: cs).dropWhile (· ≠ '=') = [] := by
            rw [List.dropWhile_eq_nil_iff]
            intro c' hc'
            simpa using ne_of_mem_of_not_mem hc' hequals
          rw [hnone]
          exact .junk (List.cons_ne_nil c cs) hspecial hequals

theorem ofTrimmed_heading (name : List Char) : ofTrimmed ('[' :: (name ++ [']'])) = .heading (trimmed name) := by
  rw [ofTrimmed, if_neg (by decide), if_pos ⟨rfl, List.getLast?_concat⟩, List.dropLast_concat]

theorem ofTrimmed_entry (hkey : '=' ∉ key) (h : ¬Special (key ++ '=' :: value)) :
    ofTrimmed (key ++ '=' :: value) = .entry (trimmed key) (trimmed value) := by
  obtain ⟨c, cs, hline⟩ : ∃ c cs, key ++ '=' :: value = c :: cs := List.exists_cons_of_ne_nil (by simp)
  have hdrop : (key ++ '=' :: value).dropWhile (· ≠ '=') = '=' :: value := dropWhile_key hkey
  have htake : (key ++ '=' :: value).takeWhile (· ≠ '=') = key := takeWhile_key hkey
  rw [hline] at h hdrop htake ⊢
  rw [special_cons, not_or] at h
  rw [ofTrimmed, if_neg h.1, if_neg h.2, hdrop, htake]

theorem head?_entry (key value : List Char) : (key ++ '=' :: value).head? = some (key.head?.getD '=') := by
  cases key <;> rfl

theorem getLast?_entry (key value : List Char) : (key ++ '=' :: value).getLast? = some (value.getLast?.getD '=') := by
  rw [List.getLast?_append, List.getLast?_cons, Option.some_or]

theorem special_entry : Special (key ++ '=' :: value) ↔
    (key.head? = some ';' ∨ key.head? = some '#') ∨ key.head? = some '[' ∧ value.getLast? = some ']' := by
  have hchar : ∀ (o : Option Char) (c : Char), c ≠ '=' → (some (o.getD '=') = some c ↔ o = some c) := by
    intro o c hc
    cases o with
    | none => simpa using Ne.symm hc
    | some c' => rfl
  rw [Special, head?_entry, getLast?_entry, hchar _ ';' (by decide), hchar _ '#' (by decide),
    hchar _ '[' (by decide), hchar _ ']' (by decide)]

/-! ### What is read is clean -/

def Clean : Line → Prop
  | .heading name => CleanText name
  | .entry key value => CleanEntry (key, value)
  | .blank | .junk => True

theorem cleanEntry_of_trimmed (htrimmed : Text.Trimmed (key ++ '=' :: value)) (hline : '\n' ∉ key ++ '=' :: value)
    (hkey : '=' ∉ key) (hspecial : ¬Special (key ++ '=' :: value)) : CleanEntry (trimmed key, trimmed value) := by
  have hhead : (Text.trim key).head? = key.head? := by
    apply Text.head?_trim
    intro c hc
    apply htrimmed.head
    rw [head?_entry, hc, Option.getD_some]
  have hlast : (Text.trim value).getLast? = value.getLast? := by
    apply Text.getLast?_trim
    intro c hc
    apply htrimmed.last
    rw [getLast?_entry, hc, Option.getD_some]
  rw [List.mem_append, List.mem_cons, not_or, not_or] at hline
  rw [special_entry, not_or, not_or, ← hhead, ← hlast] at hspecial
  constructor
  · exact cleanText_trimmed hline.1
  · exact cleanText_trimmed hline.2.2
  · rw [trimmed, String.toList_ofList]
    exact fun hmem ↦ hkey ((Text.trim_sublist key).mem hmem)
  · simpa only [trimmed, String.toList_ofList] using hspecial.1
  · simpa only [trimmed, String.toList_ofList] using hspecial.2

theorem clean_ofChars (h : '\n' ∉ cs) : (ofChars cs).Clean := by
  have hdenotes := ofTrimmed_denotes (Text.trim cs)
  have htrimmed := Text.trimmed_trim cs
  have hline : '\n' ∉ Text.trim cs := fun hmem ↦ h ((Text.trim_sublist cs).mem hmem)
  rw [ofChars]
  -- The cases of what a line denotes only apply once the line is a variable.
  generalize Text.trim cs = t, ofTrimmed (Text.trim cs) = line at *
  cases hdenotes with
  | empty | comment | junk => trivial
  | heading name =>
    apply cleanText_trimmed
    simpa using hline
  | entry hkey hspecial => exact cleanEntry_of_trimmed htrimmed hline hkey hspecial

/-! ### What is clean is read back -/

theorem ofChars_heading {name : String} (h : CleanText name) :
    ofChars ('[' :: (name.toList ++ [']'])) = .heading name := by
  have htrimmed : Text.Trimmed ('[' :: (name.toList ++ [']'])) := by
    constructor
    · intro c hc
      rw [← Option.some.inj hc]
      decide
    · intro c hc
      rw [← List.cons_append, List.getLast?_concat] at hc
      rw [← Option.some.inj hc]
      decide
  rw [ofChars, Text.trim_eq_self htrimmed, ofTrimmed_heading, trimmed_of_clean h]

theorem not_isBlank_getD {c? : Option Char} (h : ∀ c, c? = some c → Text.isBlank c = false) :
    Text.isBlank (c?.getD '=') = false := by
  cases c? with
  | none => decide
  | some c => exact h c rfl

theorem trimmed_entry (hkey : Text.Trimmed key) (hvalue : Text.Trimmed value) :
    Text.Trimmed (key ++ '=' :: value) where
  head {c} h := by
    rw [head?_entry, Option.some.injEq] at h
    rw [← h]
    exact not_isBlank_getD fun c ↦ hkey.head
  last {c} h := by
    rw [getLast?_entry, Option.some.injEq] at h
    rw [← h]
    exact not_isBlank_getD fun c ↦ hvalue.last

theorem ofChars_entry {e : String × String} (h : CleanEntry e) :
    ofChars (e.1.toList ++ '=' :: e.2.toList) = .entry e.1 e.2 := by
  have hkey := Text.trimText_eq_self_iff.1 h.key.trimmed
  have hvalue := Text.trimText_eq_self_iff.1 h.value.trimmed
  have hspecial : ¬Special (e.1.toList ++ '=' :: e.2.toList) := by
    rw [special_entry, not_or, not_or]
    exact ⟨h.noComment, h.noBrackets⟩
  rw [ofChars, Text.trim_eq_self (trimmed_entry hkey hvalue), ofTrimmed_entry h.noEquals hspecial,
    trimmed_of_clean h.key, trimmed_of_clean h.value]

end Line

namespace Document

variable {n : ℕ} {open? : Option Section} {rest : List (List Char)} {s : Section} {ss : List Section}

def entryLine (e : String × String) : List Char := e.1.toList ++ '=' :: e.2.toList

def sectionLines (s : Section) : List (List Char) := ('[' :: (s.name.toList ++ [']'])) :: s.entries.map entryLine

def lines (ss : List Section) : List (List Char) := [[]].intercalate (ss.map sectionLines)

theorem lines_singleton (s : Section) : lines [s] = sectionLines s := by
  rw [lines, List.map_singleton, List.intercalate_singleton]

theorem lines_cons_cons (s s' : Section) (ss : List Section) :
    lines (s :: s' :: ss) = sectionLines s ++ [] :: lines (s' :: ss) := by
  rw [lines, List.map_cons, List.map_cons, List.intercalate_cons_cons, List.append_assoc, List.singleton_append,
    ← List.map_cons, ← lines]

theorem toList_sectionText (s : Section) : (sectionText s).toList = (sectionLines s).flatMap (· ++ ['\n']) := by
  simp [sectionText, sectionLines, String.toList_join, List.flatMap_map, entryText, entryLine]

theorem toList_text (d : Document) : d.text.toList = (lines d.sections).flatMap (· ++ ['\n']) := by
  rw [text, String.toList_intercalate, List.map_map]
  induction d.sections with
  | nil => rfl
  | cons s ss ih =>
    cases ss with
    | nil => simp [toList_sectionText, lines_singleton]
    | cons s' ss =>
      rw [List.map_cons, List.map_cons, List.intercalate_cons_cons, ← List.map_cons, ih, lines_cons_cons,
        List.flatMap_append, Function.comp_apply, toList_sectionText, List.append_assoc]
      rfl

theorem readLines_heading {name : String} (h : CleanText name) :
    readLines n open? (('[' :: (name.toList ++ [']'])) :: rest) =
      (readLines (n + 1) (some ⟨name, []⟩) rest).map (open?.toList ++ ·) := by
  simp only [readLines, Line.ofChars_heading h]

theorem readLines_entry {e : String × String} (h : CleanEntry e) (s : Section) :
    readLines n (some s) (entryLine e :: rest) =
      readLines (n + 1) (some { s with entries := s.entries ++ [e] }) rest := by
  simp only [readLines, entryLine, Line.ofChars_entry h]

theorem readLines_entries {es : List (String × String)} (h : ∀ e ∈ es, CleanEntry e) (s : Section) :
    readLines n (some s) (es.map entryLine ++ rest) =
      readLines (n + es.length) (some { s with entries := s.entries ++ es }) rest := by
  induction es generalizing n s with
  | nil => simp
  | cons e es ih =>
    rw [List.map_cons, List.cons_append, readLines_entry (h e List.mem_cons_self),
      ih fun e he ↦ h e (List.mem_cons_of_mem _ he), List.append_assoc, List.singleton_append, List.length_cons,
      Nat.add_assoc, Nat.add_comm 1]

theorem readLines_section (h : s.Clean) :
    readLines n open? (sectionLines s ++ rest) =
      (readLines (n + 1 + s.entries.length) (some s) rest).map (open?.toList ++ ·) := by
  rw [sectionLines, List.cons_append, readLines_heading h.name, readLines_entries h.entries]
  rfl

theorem readLines_lines (h : ∀ s ∈ ss, s.Clean) :
    readLines n open? (lines ss ++ [[]]) = .ok (open?.toList ++ ss) := by
  induction ss generalizing n open? with
  | nil =>
    rw [List.append_nil]
    rfl
  | cons s ss ih =>
    have hs := h s List.mem_cons_self
    cases ss with
    | nil =>
      have hlast : ∀ n, readLines n (some s) [[]] = .ok [s] := fun _ ↦ rfl
      rw [lines_singleton, readLines_section hs, hlast]
      rfl
    | cons s' ss =>
      -- The empty line before the next heading comes while the section is still being filled.
      have hblank : ∀ n ls, readLines n (some s) ([] :: ls) = readLines (n + 1) (some s) ls := fun _ _ ↦ rfl
      rw [lines_cons_cons, List.append_assoc, readLines_section hs, List.cons_append, hblank,
        ih fun s hs ↦ h s (List.mem_cons_of_mem _ hs)]
      rfl

theorem mem_lines {l : List Char} (h : l ∈ lines ss) : l = [] ∨ ∃ s ∈ ss, l ∈ sectionLines s := by
  induction ss with
  | nil => cases h
  | cons s ss ih =>
    cases ss with
    | nil =>
      rw [lines_singleton] at h
      exact .inr ⟨s, List.mem_cons_self, h⟩
    | cons s' ss =>
      rw [lines_cons_cons, List.mem_append, List.mem_cons] at h
      rcases h with h | h | h
      · exact .inr ⟨s, List.mem_cons_self, h⟩
      · exact .inl h
      · obtain h | ⟨s, hs, h⟩ := ih h
        · exact .inl h
        · exact .inr ⟨s, List.mem_cons_of_mem _ hs, h⟩

theorem not_mem_sectionLines (h : s.Clean) : ∀ l ∈ sectionLines s, '\n' ∉ l := by
  intro l hl
  rw [sectionLines, List.mem_cons, List.mem_map] at hl
  obtain rfl | ⟨e, he, rfl⟩ := hl
  · simpa using h.name.oneLine
  · have hentry := h.entries e he
    simpa [entryLine] using And.intro hentry.key.oneLine hentry.value.oneLine

theorem ofText_text {d : Document} (h : d.Clean) : ofText d.text = .ok (ofSections d.sections) := by
  have hlines : ∀ l ∈ lines d.sections, '\n' ∉ l := by
    intro l hl
    obtain rfl | ⟨s, hs, hl⟩ := mem_lines hl
    · exact List.not_mem_nil
    · exact not_mem_sectionLines (h s hs) l hl
  rw [ofText, toList_text, Line.split_flatMap hlines, readLines_lines h]
  rfl

theorem clean_of_readLines {ls : List (List Char)} (hls : ∀ l ∈ ls, '\n' ∉ l) (hopen : ∀ s ∈ open?, s.Clean)
    (h : readLines n open? ls = .ok ss) : ∀ s ∈ ss, s.Clean := by
  induction ls generalizing n open? ss with
  | nil =>
    obtain rfl : open?.toList = ss := Except.ok.inj h
    simpa using hopen
  | cons l ls ih =>
    -- Whatever line comes next, the section being filled stays clean.
    have hclean := Line.clean_ofChars (hls l List.mem_cons_self)
    replace hls := fun l hl ↦ hls l (List.mem_cons_of_mem _ hl)
    cases hline : Line.ofChars l with
    | blank =>
      simp only [readLines, hline] at h
      exact ih hls hopen h
    | junk =>
      simp only [readLines, hline] at h
      cases h
    | heading name =>
      rw [hline] at hclean
      simp only [readLines, hline] at h
      obtain ⟨rest, hrest, rfl⟩ := Except.map_eq_ok.1 h
      intro s hs
      rcases List.mem_append.1 hs with hs | hs
      · exact hopen s (Option.mem_toList.1 hs)
      · apply ih hls _ hrest s hs
        rintro _ ⟨⟩
        exact Section.clean_nil hclean
    | entry key value =>
      rw [hline] at hclean
      cases open? with
      | none =>
        simp only [readLines, hline] at h
        cases h
      | some s =>
        simp only [readLines, hline] at h
        apply ih hls _ h
        rintro _ ⟨⟩
        exact (hopen s rfl).concat hclean

theorem ofText_eq_ok {t : String} {d : Document} :
    ofText t = .ok d ↔ ∃ ss, readLines 1 none (Line.split t.toList) = .ok ss ∧ ofSections ss = d := by
  rw [ofText]
  cases readLines 1 none (Line.split t.toList) with
  | error fault => simp
  | ok ss => simp

theorem clean_of_ofText {t : String} {d : Document} (h : ofText t = .ok d) : d.Clean := by
  obtain ⟨ss, hss, rfl⟩ := ofText_eq_ok.1 h
  exact clean_of_readLines (fun _ ↦ Line.not_mem_of_mem_split) (by simp) hss

/-- The text of a document keeps its sections exactly if the document is clean; so it does if the document was
itself read from a text. -/
theorem text_faithful (d : Document) :
    ((∃ c, ofText d.text = .ok c ∧ c.sections = d.sections) ↔ d.Clean) ∧
      ∀ t, ofText t = .ok d → d.Clean ∧ ofText d.text = .ok d := by
  refine ⟨⟨?_, ?_⟩, ?_⟩
  · rintro ⟨c, hc, hsections⟩
    have hclean := clean_of_ofText hc
    rwa [Clean, hsections] at hclean
  · intro hclean
    exact ⟨_, ofText_text hclean, rfl⟩
  · intro t ht
    have hclean := clean_of_ofText ht
    obtain ⟨ss, -, rfl⟩ := ofText_eq_ok.1 ht
    exact ⟨hclean, ofText_text hclean⟩

def untidy : String := "\t[ 1001 ]\r\nName = Arden \n\n; empty names, and a key in brackets\n[]\n=x=y\n[k]=v"

def tidied : Document := ofSections [⟨"1001", [("Name", "Arden")]⟩, ⟨"", [("", "x=y"), ("[k]", "v")]⟩]

theorem text_faithful_untidy : ofText untidy = .ok tidied ∧ tidied.Clean ∧ ofText tidied.text = .ok tidied := by
  have hread : ofText untidy = .ok tidied := by decide
  exact ⟨hread, (text_faithful tidied).2 untidy hread⟩

example : ofText (ofSections [⟨"1001", [("k=", "v")]⟩]).text = .ok (ofSections [⟨"1001", [("k", "=v")]⟩]) := by
  decide

end Document
end GameHost
