import GameHost.Proofs.Document.Visits

namespace GameHost

inductive Act
  | next
  | prev
  | write (key value : String)
  | setMode (mode : WriteMode)
  deriving DecidableEq

namespace Document

/-! ### Keys -/

def keys (d : Document) : List String := d.entries.map (·.1)

variable {d d' : Document} {i : ℕ}

theorem moveTo?_eq_some :
    d.moveTo? i = some d' ↔
      (∃ key, d.keys[i]? = some key ∧ isMarker key = false) ∧ d' = { d with cursor := some i } := by
  simp only [moveTo?, keys, List.getElem?_map, Option.map_eq_some_iff, Option.filter_eq_some_iff, Bool.not_eq_true']
  constructor
  · rintro ⟨e, ⟨hat, hplain⟩, hd⟩
    exact ⟨⟨e.1, ⟨e, hat, rfl⟩, hplain⟩, hd.symm⟩
  · rintro ⟨⟨key, ⟨e, hat, hkey⟩, hplain⟩, hd⟩
    exact ⟨e, ⟨hat, hkey ▸ hplain⟩, hd.symm⟩

theorem keys_putEntry_eq (key value : String) (es : List Entry) :
    (putEntry key value es).map (·.1) =
      if key ∈ es.map (·.1) then es.map (·.1) else es.map (·.1) ++ [key] := by
  induction es with
  | nil => rfl
  | cons e es ih =>
    rw [putEntry]
    split
    · next hkey => simp [hkey]
    · next hkey =>
      have hmem : key ∈ (e :: es).map (·.1) ↔ key ∈ es.map (·.1) := by
        rw [List.map_cons, List.mem_cons, or_iff_right (Ne.symm hkey)]
      rw [List.map_cons, ih]
      simp only [hmem]
      split <;> rfl

theorem keys_putEntry (key value : String) (es : List Entry) :
    es.map (·.1) <+: (putEntry key value es).map (·.1) := by
  rw [keys_putEntry_eq]
  split
  · exact List.prefix_rfl
  · exact List.prefix_append _ _

theorem keys_write_section (mode : WriteMode) (key value : String) (s : Section) :
    s.entries.map (·.1) <+: (Section.write mode key value s).entries.map (·.1) := by
  cases mode with
  | unique => exact keys_putEntry key value s.entries
  | duplicates =>
    rw [Section.write, List.map_append]
    exact List.prefix_append _ _

theorem keys_write {key value : String} (h : d.write key value = .ok d') :
    d.keys <+: d'.keys ∧ d'.cursor = d.cursor := by
  have hcursor : d'.cursor = d.cursor := by
    rw [write] at h
    split at h
    · cases h
    · cases h
      rfl
  refine ⟨?_, hcursor⟩
  rw [keys, keys, entries, entries, current?_write h]
  cases d.current? with
  | none => exact List.nil_prefix
  | some s => exact keys_write_section d.mode key value s

end Document

namespace Act

open Document

def moved? : Act → Document → Option Document
  | next, d => d.next?
  | prev, d => d.prev?
  | write .., _ | setMode _, _ => none

/-- The document afterwards. A move that is not possible, or a write, leaves the cursor where it is. -/
def perform (a : Act) (d : Document) : Document :=
  match a with
  | next => d.next?.getD d
  | prev => d.prev?.getD d
  | write key value => (d.write key value).toOption.getD d
  | setMode mode => { d with mode }

variable {a : Act} {d d' : Document}

theorem perform_of_moved (h : a.moved? d = some d') : a.perform d = d' := by
  cases a with
  | next | prev => exact congrArg (Option.getD · d) h
  | write | setMode => cases h

theorem exists_of_moved (h : a.moved? d = some d') : ∃ i, d.moveTo? i = some d' := by
  cases a with
  | next => exact ⟨_, h⟩
  | prev =>
    rw [moved?, prev?] at h
    split at h
    · exact ⟨_, h⟩
    · cases h
  | write | setMode => cases h

theorem keys_perform (a : Act) (d : Document) : d.keys <+: (a.perform d).keys := by
  cases hmoved : a.moved? d with
  | some d' =>
    obtain ⟨i, hto⟩ := exists_of_moved hmoved
    obtain ⟨-, rfl⟩ := moveTo?_eq_some.1 hto
    rw [perform_of_moved hmoved]
    exact List.prefix_rfl
  | none =>
    cases a with
    | next | prev =>
      rw [moved?] at hmoved
      rw [perform, hmoved]
      exact List.prefix_rfl
    | setMode => exact List.prefix_rfl
    | write key value =>
      rw [perform]
      cases hwrite : d.write key value with
      | error e => exact List.prefix_rfl
      | ok d' => exact (keys_write hwrite).1

theorem cursor_perform (h : a.moved? d = none) : (a.perform d).cursor = d.cursor := by
  cases a with
  | next | prev =>
    rw [moved?] at h
    rw [perform, h]
    rfl
  | setMode => rfl
  | write key value =>
    rw [perform]
    cases hwrite : d.write key value with
    | error e => rfl
    | ok d' => exact (keys_write hwrite).2

end Act

namespace Document

/-- The moves that succeed, each with the document that it leads to. -/
def landings : List Act → Document → List (Act × Document)
  | [], _ => []
  | a :: as, d => ((a.moved? d).map (a, ·)).toList ++ landings as (a.perform d)

theorem landings_moved {a : Act} {as : List Act} {d d' : Document} (h : a.moved? d = some d') :
    landings (a :: as) d = (a, d') :: landings as d' := by
  rw [landings, Act.perform_of_moved h, h]
  rfl

theorem landings_stayed {a : Act} {as : List Act} {d : Document} (h : a.moved? d = none) :
    landings (a :: as) d = landings as (a.perform d) := by
  rw [landings, h]
  rfl

/-! ### Where the cursor can get -/

def Plain (d : Document) (j : ℕ) : Prop := ∃ key, d.keys[j]? = some key ∧ isMarker key = false

def Marks (d : Document) (i : ℕ) : Prop := ∃ key, d.keys[i]? = some key ∧ isMarker key

/-- The cursor is behind place `i`, with no marker in between, nor under it. -/
def Inside (i : ℕ) (d : Document) : Prop := ∃ c, d.cursor = some c ∧ i < c ∧ ∀ j, i < j → j ≤ c → d.Plain j

def Before (i : ℕ) (d : Document) : Prop := ∃ c, d.cursor = some c ∧ c < i

variable {d d' : Document} {i : ℕ} {a : Act} {as : List Act}

theorem getElem?_keys {key : String} {j : ℕ} (hkeys : d.keys <+: d'.keys) (hat : d.keys[i]? = some key) (hj : j ≤ i) :
    d'.keys[j]? = d.keys[j]? := by
  obtain ⟨rest, hrest⟩ := hkeys
  obtain ⟨hlt, -⟩ := List.getElem?_eq_some_iff.1 hat
  rw [← hrest, List.getElem?_append_left (Nat.lt_of_le_of_lt hj hlt)]

theorem Plain.mono (h : d.Plain i) (hkeys : d.keys <+: d'.keys) : d'.Plain i := by
  obtain ⟨key, hat, hplain⟩ := h
  exact ⟨key, (getElem?_keys hkeys hat (Nat.le_refl i)).trans hat, hplain⟩

theorem Marks.mono (h : d.Marks i) (hkeys : d.keys <+: d'.keys) : d'.Marks i := by
  obtain ⟨key, hat, hmarker⟩ := h
  exact ⟨key, (getElem?_keys hkeys hat (Nat.le_refl i)).trans hat, hmarker⟩

theorem Marks.not_plain (h : d.Marks i) : ¬ d.Plain i := by
  rintro ⟨key, hat, hplain⟩
  obtain ⟨key', hat', hmarker⟩ := h
  rw [hat] at hat'
  rw [← Option.some.inj hat', hplain] at hmarker
  cases hmarker

theorem next?_eq_some {c : ℕ} (hcursor : d.cursor = some c) :
    d.next? = some d' ↔ d.Plain (c + 1) ∧ d' = { d with cursor := some (c + 1) } := by
  rw [next?, ahead, hcursor, Option.elim_some, moveTo?_eq_some]
  rfl

theorem prev?_eq_some {c : ℕ} (hcursor : d.cursor = some c) :
    d.prev? = some d' ↔ ∃ k, c = k + 1 ∧ d.Plain k ∧ d' = { d with cursor := some k } := by
  rw [prev?, hcursor]
  cases c with
  | zero => simp
  | succ k =>
    rw [moveTo?_eq_some]
    constructor
    · intro h
      exact ⟨k, rfl, h⟩
    · rintro ⟨k', hk, h⟩
      obtain rfl := Nat.succ.inj hk
      exact h

theorem Inside.stayed (h : Inside i d) (hmoved : a.moved? d = none) : Inside i (a.perform d) := by
  obtain ⟨c, hcursor, hlt, hplain⟩ := h
  refine ⟨c, (Act.cursor_perform hmoved).trans hcursor, hlt, ?_⟩
  intro j hj hjc
  exact (hplain j hj hjc).mono (a.keys_perform d)

theorem Inside.moved (h : Inside i d) (hmarks : d.Marks i) (hmoved : a.moved? d = some d') : Inside i d' := by
  obtain ⟨c, hcursor, hlt, hplain⟩ := h
  cases a with
  | next =>
    obtain ⟨hnext, rfl⟩ := (next?_eq_some hcursor).1 hmoved
    refine ⟨c + 1, rfl, by omega, ?_⟩
    intro j hj hjc
    rcases Nat.lt_or_eq_of_le hjc with hjc | rfl
    · exact hplain j hj (Nat.le_of_lt_succ hjc)
    · exact hnext
  | prev =>
    obtain ⟨k, rfl, hprev, rfl⟩ := (prev?_eq_some hcursor).1 hmoved
    have hne : k ≠ i := by
      intro heq
      exact hmarks.not_plain (heq ▸ hprev)
    refine ⟨k, rfl, by omega, ?_⟩
    intro j hj hjk
    exact hplain j hj (Nat.le_succ_of_le hjk)
  | write | setMode => cases hmoved

theorem Before.moved (h : Before i d) (hmarks : d.Marks i) (hmoved : a.moved? d = some d') : Before i d' := by
  obtain ⟨c, hcursor, hlt⟩ := h
  cases a with
  | next =>
    obtain ⟨hnext, rfl⟩ := (next?_eq_some hcursor).1 hmoved
    have hne : c + 1 ≠ i := by
      intro heq
      exact hmarks.not_plain (heq ▸ hnext)
    exact ⟨c + 1, rfl, by omega⟩
  | prev =>
    obtain ⟨k, rfl, -, rfl⟩ := (prev?_eq_some hcursor).1 hmoved
    exact ⟨k, rfl, by omega⟩
  | write | setMode => cases hmoved

theorem Before.stayed (h : Before i d) (hmoved : a.moved? d = none) : Before i (a.perform d) := by
  obtain ⟨c, hcursor, hlt⟩ := h
  exact ⟨c, (Act.cursor_perform hmoved).trans hcursor, hlt⟩

theorem forall_landings {P : Document → Prop} (hmarks : d.Marks i)
    (hmoved : ∀ {a d d'}, P d → d.Marks i → Act.moved? a d = some d' → P d')
    (hstayed : ∀ {a d}, P d → Act.moved? a d = none → P (a.perform d)) (h : P d) :
    ∀ p ∈ landings as d, P p.2 := by
  induction as generalizing d with
  | nil =>
    intro p hp
    cases hp
  | cons a as ih =>
    have hmarks' := hmarks.mono (a.keys_perform d)
    cases hmove : a.moved? d with
    | none =>
      rw [landings_stayed hmove]
      exact ih hmarks' (hstayed h hmove)
    | some d' =>
      rw [Act.perform_of_moved hmove] at hmarks'
      have hd' := hmoved h hmarks hmove
      rw [landings_moved hmove, List.forall_mem_cons]
      exact ⟨hd', ih hmarks' hd'⟩

/-- From the entry that opens a block, it is the first move that decides. -/
theorem landings_of_marks (as : List Act) (hmarks : d.Marks i) (hcursor : d.cursor = some i) :
    ((∀ p ∈ landings as d, Inside i p.2) ∧ ∀ p ∈ (landings as d).head?, p.1 ≠ .prev) ∨
      ∃ k d' rest, landings as d = (.prev, d') :: rest ∧ i = k + 1 ∧ d.Plain k ∧ d'.cursor = some k ∧
        ∀ p ∈ landings as d, Before i p.2 := by
  induction as generalizing d with
  | nil =>
    refine .inl ⟨?_, ?_⟩ <;> intro p hp <;> cases hp
  | cons a as ih =>
    have hmarks' := hmarks.mono (a.keys_perform d)
    cases hmove : a.moved? d with
    | none =>
      rw [landings_stayed hmove]
      have hcursor' := (Act.cursor_perform hmove).trans hcursor
      rcases ih hmarks' hcursor' with hinside | ⟨k, d', rest, hrest, rfl, hplain, hback⟩
      · exact .inl hinside
      · refine .inr ⟨k, d', rest, hrest, rfl, ?_, hback⟩
        -- The entry in front of the block was there before: what is written comes behind it.
        obtain ⟨key, hat, hkey⟩ := hplain
        obtain ⟨key', hat', -⟩ := hmarks
        exact ⟨key, (getElem?_keys (a.keys_perform d) hat' (Nat.le_succ k)).symm.trans hat, hkey⟩
    | some d' =>
      rw [landings_moved hmove]
      rw [Act.perform_of_moved hmove] at hmarks'
      cases a with
      | write | setMode => cases hmove
      | next =>
        obtain ⟨hnext, rfl⟩ := (next?_eq_some hcursor).1 hmove
        have hinside : Inside i { d with cursor := some (i + 1) } := by
          refine ⟨i + 1, rfl, Nat.lt_succ_self i, ?_⟩
          intro j hj hji
          obtain rfl : j = i + 1 := by omega
          exact hnext
        refine .inl ⟨?_, ?_⟩
        · rw [List.forall_mem_cons]
          exact ⟨hinside, forall_landings hmarks' Inside.moved Inside.stayed hinside⟩
        · intro p hp
          obtain rfl := Option.some.inj hp
          nofun
      | prev =>
        obtain ⟨k, rfl, hprev, rfl⟩ := (prev?_eq_some hcursor).1 hmove
        have hbefore : Before (k + 1) { d with cursor := some k } := ⟨k, rfl, Nat.lt_succ_self k⟩
        refine .inr ⟨k, _, _, rfl, rfl, hprev, rfl, ?_⟩
        rw [List.forall_mem_cons]
        exact ⟨hbefore, forall_landings hmarks' Before.moved Before.stayed hbefore⟩

end Document

/-- A call of a reader: the module that it is for, the document that it is handed, and what it does with that. -/
structure Stay where
  module : String
  handed : Document
  acts : List Act
  deriving DecidableEq

/-- A reader that does nothing else with a document. What it does may depend on all that it finds. -/
structure Rover (σ : Type) where
  module : String
  acts : σ → Document → List Act
  result : σ → Document → Except Error Unit × σ
  write : BlockAction σ

def Rover.hook {σ : Type} (r : Rover σ) : BlockHook (σ × List Stay) where
  module := r.module
  read s d :=
    let (outcome, after) := r.result s.1 d
    (outcome, (after, s.2 ++ [⟨r.module, d, r.acts s.1 d⟩]), (r.acts s.1 d).foldl (fun d a ↦ a.perform d) d)
  write s d :=
    let (outcome, after, last) := r.write s.1 d
    (outcome, (after, s.2), last)

namespace Stay

def landings (stay : Stay) : List (Act × Document) := Document.landings stay.acts stay.handed

/-- The cursor is on an entry that opens a block of the module. -/
def Opens (stay : Stay) (i : ℕ) : Prop :=
  stay.handed.cursor = some i ∧
    ∃ key, stay.handed.entries[i]? = some (key, stay.module) ∧ Document.startsWith key Document.blockKey

theorem Opens.marks {stay : Stay} {i : ℕ} (h : stay.Opens i) : stay.handed.Marks i := by
  obtain ⟨-, key, hat, hblock⟩ := h
  refine ⟨key, ?_, ?_⟩
  · rw [Document.keys, List.getElem?_map, hat]
    rfl
  · rw [Document.isMarker, hblock, Bool.true_or]

end Stay

namespace Document

variable {σ : Type} {rovers : List (Rover σ)} {s t : σ} {log stays : List Stay} {d last : Document}
  {outcome : Except Error Unit}

theorem opens_of_found (s : σ) (log : List Stay) {i : ℕ} {e : Entry} {h : BlockHook (σ × List Stay)}
    (hat : d.entries[i]? = some e) (hblock : startsWith e.1 blockKey)
    (hfind : (rovers.map Rover.hook).find? (·.module == e.2) = some h) :
    ∃ (r : Rover σ) (stay : Stay), stay.Opens i ∧ h.read (s, log) { d with cursor := some i } =
      ((r.result s { d with cursor := some i }).1, ((r.result s { d with cursor := some i }).2, log ++ [stay]),
        stay.acts.foldl (fun d a ↦ a.perform d) { d with cursor := some i }) := by
  obtain ⟨hmem, hmodule⟩ := mem_modules_of_find? hfind
  obtain ⟨r, -, rfl⟩ := List.mem_map.1 hmem
  refine ⟨r, ⟨r.module, { d with cursor := some i }, r.acts s { d with cursor := some i }⟩, ⟨rfl, e.1, ?_, hblock⟩, rfl⟩
  have hmodule' : r.module = e.2 := hmodule
  rw [hmodule']
  exact hat

theorem readBlocks_stays {fuel i : ℕ} (hlog : ∀ stay ∈ log, ∃ i, stay.Opens i)
    (hran : readBlocks (rovers.map Rover.hook) fuel i (s, log) d = some (outcome, (t, stays), last)) :
    ∀ stay ∈ stays, ∃ i, stay.Opens i := by
  induction fuel generalizing i s log d with
  | zero => cases hran
  | succ fuel ih =>
    cases hat : d.entries[i]? with
    | none =>
      rw [readBlocks_done hat] at hran
      cases hran
      exact hlog
    | some e =>
      rcases entry_cases e with hblock | hend | hplain
      · cases hfind : (rovers.map Rover.hook).find? (·.module == e.2) with
        | none =>
          rw [readBlocks_passed hat hblock hfind] at hran
          exact ih hlog hran
        | some h =>
          obtain ⟨r, stay, hopens, hread⟩ := opens_of_found s log hat hblock hfind
          have hlog' : ∀ stay' ∈ log ++ [stay], ∃ i, stay'.Opens i := by
            intro stay' hstay
            rcases List.mem_append.1 hstay with hstay | hstay
            · exact hlog stay' hstay
            · rw [List.mem_singleton.1 hstay]
              exact ⟨i, hopens⟩
          cases hresult : (r.result s { d with cursor := some i }).1 with
          | ok =>
            rw [hresult] at hread
            rw [readBlocks_handed hat hblock hfind hread] at hran
            exact ih hlog' hran
          | error cause =>
            rw [hresult] at hread
            rw [readBlocks_failed hat hblock hfind hread] at hran
            cases hran
            exact hlog'
      · rw [readBlocks_end hat hend] at hran
        cases hran
        exact hlog
      · rw [readBlocks_plain hat hplain] at hran
        exact ih hlog hran

/-- A reader stays inside its block unless the first of its moves that succeeds is one back. Such a move leads to the
entry in front of the block, and no move leads back behind the entry that opens it. -/
theorem inside_unless_back_first (rovers : List (Rover σ)) (s : σ) (d : Document)
    (hread : enumRead (rovers.map Rover.hook) (s, []) d = some (outcome, (t, stays), last)) :
    ∀ stay ∈ stays, ∃ i, stay.Opens i ∧
      ((∀ p ∈ stay.landings, Inside i p.2) ↔ ∀ p ∈ stay.landings.head?, p.1 ≠ .prev) ∧
      ∀ p ∈ stay.landings.head?, p.1 = .prev →
        (∃ k, i = k + 1 ∧ stay.handed.Plain k ∧ p.2.cursor = some k) ∧ ∀ q ∈ stay.landings, Before i q.2 := by
  intro stay hstay
  obtain ⟨i, hopens⟩ := readBlocks_stays (by simp) hread stay hstay
  refine ⟨i, hopens, ?_⟩
  rcases landings_of_marks stay.acts hopens.marks hopens.1 with
    ⟨hinside, hfirst⟩ | ⟨k, d', rest, hlandings, hk, hplain, hcursor, hbefore⟩
  · refine ⟨⟨fun _ ↦ hfirst, fun _ ↦ hinside⟩, ?_⟩
    intro p hp hback
    exact absurd hback (hfirst p hp)
  · have hhead : stay.landings.head? = some (.prev, d') := by
      rw [Stay.landings, hlandings]
      rfl
    refine ⟨⟨fun hinside ↦ ?_, fun hfirst ↦ absurd rfl (hfirst _ hhead)⟩, ?_⟩
    · obtain ⟨c, hc, hlt, -⟩ := hinside (.prev, d') (List.mem_of_head? hhead)
      rw [hcursor] at hc
      obtain rfl := Option.some.inj hc
      omega
    · intro p hp _
      rw [hhead] at hp
      obtain rfl := Option.some.inj hp
      exact ⟨⟨k, hk, hplain, hcursor⟩, hbefore⟩

def wanderer (acts : List Act) : Rover Unit :=
  ⟨"mail", fun _ _ ↦ acts, fun _ _ ↦ (.ok (), ()), fun s d ↦ (.ok (), s, d)⟩

def twoBlocks : Document :=
  ⟨[⟨"1001", [("ModuleData1", "buff"), ("Strength", "5"), ("ModuleData2", "mail"), ("Unread", "2"), ("Gifts", "0"),
    ("EnumEnd", "0")]⟩], some 0, none, 0, .unique⟩

def atMail (acts : List Act) : Stay := ⟨"mail", { twoBlocks with cursor := some 2 }, acts⟩

theorem inside_unless_back_first_turning :
    let acts : List Act := [.next, .next, .next, .write "ModuleData3" "shop", .prev, .prev, .next]
    (∃ last, enumRead ([wanderer acts].map Rover.hook) ((), []) twoBlocks =
      some (.ok (), ((), [atMail acts]), last)) ∧
    (atMail acts).landings.map (fun p ↦ p.2.cursor) = [some 3, some 4, some 3, some 4] ∧
    ∀ p ∈ (atMail acts).landings, Inside 2 p.2 := by
  intro acts
  have hread : enumRead ([wanderer acts].map Rover.hook) ((), []) twoBlocks =
      some (.ok (), ((), [atMail acts]), _) := rfl
  obtain ⟨i, ⟨hcursor, -⟩, hinside, -⟩ := inside_unless_back_first [wanderer acts] () twoBlocks hread _ (.head _)
  obtain rfl : 2 = i := Option.some.inj hcursor
  exact ⟨⟨_, hread⟩, by decide, hinside.2 (by decide)⟩

/-- The reader of `mail` gets to see what `buff` has written. -/
theorem wanderer_strays :
    (∃ last, enumRead ([wanderer [.prev]].map Rover.hook) ((), []) twoBlocks =
      some (.ok (), ((), [atMail [.prev]]), last)) ∧
    (atMail [.prev]).landings.map (fun p ↦ (p.1, Document.entry? p.2)) = [(.prev, some ("Strength", "5"))] ∧
    (atMail [.prev]).Opens 2 ∧ ¬ ∀ p ∈ (atMail [.prev]).landings, Inside 2 p.2 := by
  refine ⟨⟨_, rfl⟩, by decide, ⟨rfl, "ModuleData2", by decide, by decide⟩, ?_⟩
  intro hinside
  obtain ⟨c, hcursor, hlt, -⟩ := hinside _ (.head _)
  obtain rfl : 1 = c := Option.some.inj hcursor
  exact absurd hlt (by decide)

end Document
end GameHost
