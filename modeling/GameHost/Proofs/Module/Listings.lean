import GameHost.Proofs.Module.Registries

namespace GameHost

def Note.enlisted? (r : ℕ) : Note → Option ℕ
  | enlisted r' id => if r' = r then some id else none
  | _ => none

def enlistings (r : ℕ) (notes : List Note) : List ℕ := notes.filterMap (Note.enlisted? r)

def Note.relist (r : ℕ) (ids : List ℕ) : Note → List ℕ
  | enlisted r' id => if r' = r then ids ++ [id] else ids
  | emptied r' => if r' = r then [] else ids
  | _ => ids

variable {r : ℕ} {ids : List ℕ} {notes : List Note}

theorem Note.relist_of_not_isLife {n : Note} (h : n.isLife = false) : n.relist r ids = ids := by
  cases n <;> first | rfl | cases h

theorem relist_of_not_isLife (h : ∀ n ∈ notes, n.isLife = false) : notes.foldl (Note.relist r) ids = ids := by
  induction notes with
  | nil => rfl
  | cons n notes ih =>
    rw [List.forall_mem_cons] at h
    rw [List.foldl_cons, Note.relist_of_not_isLife h.1, ih h.2]

theorem relist_of_not_emptied (h : .emptied r ∉ notes) :
    notes.foldl (Note.relist r) ids = ids ++ enlistings r notes := by
  induction notes generalizing ids with
  | nil => rw [enlistings, List.filterMap_nil, List.append_nil, List.foldl_nil]
  | cons n notes ih =>
    rw [List.mem_cons, not_or] at h
    rw [List.foldl_cons, ih h.2, enlistings, enlistings, List.filterMap_cons]
    cases n with
    | enlisted r' id =>
      by_cases hr : r' = r
      · simp only [Note.relist, Note.enlisted?, hr, if_true, List.append_assoc, List.singleton_append]
      · simp only [Note.relist, Note.enlisted?, hr, if_false]
    | emptied r' =>
      have hr : r' ≠ r := by
        rintro rfl
        exact h.1 rfl
      simp only [Note.relist, Note.enlisted?, hr, if_false]
    | _ => rfl

theorem relist_of_emptied {front back : List Note} (h : .emptied r ∉ back) :
    (front ++ .emptied r :: back).foldl (Note.relist r) ids = enlistings r back := by
  rw [List.foldl_append, List.foldl_cons, relist_of_not_emptied h, Note.relist, if_pos rfl, List.nil_append]

namespace World

variable {w v u : World} {log : List Note}

/-! ### Lists -/

/-- What comes after a world, with all that is noted in between, the oldest first. Notes are read and dropped between
operations. -/
inductive Later (w : World) : List Note → World → Prop
  | here : Later w [] w
  | changed {log new : List Note} {v u : World} (h : Later w log v) (hchanges : Changes v u)
      (hnotes : u.notes = new.reverse ++ v.notes) : Later w (log ++ new) u
  | read {log : List Note} {v : World} (h : Later w log v) : Later w log { v with notes := [] }

/-- From a world to the next, a registry comes to list what is noted of it. -/
structure Lists (r : ℕ) (w : World) (new : List Note) (v : World) : Prop where
  notes : v.notes = new.reverse ++ w.notes
  modules : (v.registry r).modules = new.foldl (Note.relist r) (w.registry r).modules
  length_le : w.registries.length ≤ v.registries.length

theorem Lists.trans {new new' : List Note} (h : Lists r w new v) (h' : Lists r v new' u) :
    Lists r w (new ++ new') u where
  notes := by rw [h'.notes, h.notes, List.reverse_append, List.append_assoc]
  modules := by rw [h'.modules, h.modules, List.foldl_append]
  length_le := Nat.le_trans h.length_le h'.length_le

theorem registry_setRegistry_self (hr : r < w.registries.length) (reg : Registry) :
    (w.setRegistry r reg).registry r = reg := by
  rw [registry, setRegistry, List.getD_eq_getElem?_getD, List.getElem?_set_self hr, Option.getD_some]

theorem registry_setRegistry_ne {r' : ℕ} (hne : r' ≠ r) (reg : Registry) :
    (w.setRegistry r' reg).registry r = w.registry r := by
  rw [registry, setRegistry, registry, List.getD_eq_getElem?_getD, List.getD_eq_getElem?_getD, List.getElem?_set_ne hne]

theorem length_registries_setRegistry (w : World) (r : ℕ) (reg : Registry) :
    (w.setRegistry r reg).registries.length = w.registries.length := List.length_set ..

theorem lists_setRegistry {n : Note} {r' : ℕ} {reg : Registry} (hr : r < w.registries.length)
    (hself : r' = r → n.relist r (w.registry r).modules = reg.modules)
    (hother : r' ≠ r → n.relist r (w.registry r).modules = (w.registry r).modules) :
    Lists r w [n] ((w.setRegistry r' reg).note n) := by
  refine ⟨rfl, ?_, Nat.le_of_eq (length_registries_setRegistry w r' reg).symm⟩
  change ((w.setRegistry r' reg).registry r).modules = n.relist r (w.registry r).modules
  by_cases hsame : r' = r
  · rw [hself hsame, hsame, registry_setRegistry_self hr]
  · rw [hother hsame, registry_setRegistry_ne hsame]

theorem lists_enter {id : ℕ} {m : Module} {target : ModuleState} : ∃ new, Lists r w new (w.enter id m target) := by
  cases hhook : target.hook?.filter m.has with
  | none =>
    refine ⟨[.moved id m.state target], ?_, rfl, Nat.le_refl _⟩
    simp only [enter, hhook]
    rfl
  | some hook =>
    refine ⟨[.moved id m.state target, .started hook id m.name], ?_, rfl, Nat.le_refl _⟩
    simp only [enter, hhook]
    rfl

theorem Change.lists (h : Change w v) (hr : r < w.registries.length) : ∃ new, Lists r w new v := by
  cases h with
  | aside hmodules hregistries hnotes =>
    obtain ⟨notes, hnotes, hquiet⟩ := hnotes
    refine ⟨notes.reverse, by rw [hnotes, List.reverse_reverse], ?_, by rw [hregistries]⟩
    rw [relist_of_not_isLife fun n hn ↦ hquiet n (List.mem_reverse.1 hn), registry, hregistries, registry]
  | made | tended => exact ⟨[], rfl, rfl, Nat.le_refl _⟩
  | opened =>
    refine ⟨[], rfl, ?_, ?_⟩
    · rw [registry, List.getD_eq_getElem?_getD, List.getElem?_append_left hr, List.foldl_nil, registry,
        List.getD_eq_getElem?_getD]
    · exact Nat.le_of_lt (by rw [List.length_append]; exact Nat.lt_succ_self _)
  | @enlisted r' id m =>
    refine ⟨_, lists_setRegistry hr ?_ fun hne ↦ if_neg hne⟩
    rintro rfl
    exact if_pos rfl
  | entered => exact lists_enter
  | emptied r' => exact ⟨_, lists_setRegistry hr (fun heq ↦ if_pos heq) fun hne ↦ if_neg hne⟩

theorem Changes.lists (h : Changes w v) (hr : r < w.registries.length) : ∃ new, Lists r w new v := by
  induction h with
  | refl => exact ⟨[], rfl, rfl, Nat.le_refl _⟩
  | tail _ hlast ih =>
    obtain ⟨new, hnew⟩ := ih
    obtain ⟨new', hnew'⟩ := hlast.lists (Nat.lt_of_lt_of_le hr hnew.length_le)
    exact ⟨new ++ new', hnew.trans hnew'⟩

namespace Later

theorem trans {log' : List Note} (h : Later w log v) (h' : Later v log' u) : Later w (log ++ log') u := by
  induction h' with
  | here => exact (List.append_nil log).symm ▸ h
  | changed _ hchanges hnotes ih => exact List.append_assoc .. ▸ ih.changed hchanges hnotes
  | read _ ih => exact ih.read

theorem sound (h : Later w log v) (hw : w.Sound) : v.Sound := by
  induction h with
  | here => exact hw
  | changed _ hchanges _ ih => exact ih.changes hchanges
  | read _ ih => exact ih

theorem listing (h : Later w log v) (hr : r < w.registries.length) :
    (v.registry r).modules = log.foldl (Note.relist r) (w.registry r).modules ∧ r < v.registries.length := by
  induction h with
  | here => exact ⟨rfl, hr⟩
  | @changed log new v u _ hchanges hnotes ih =>
    obtain ⟨hmodules, hr⟩ := ih
    obtain ⟨new', hlists⟩ := hchanges.lists hr
    have hnew : new' = new := List.reverse_injective (List.append_cancel_right (hlists.notes.symm.trans hnotes))
    subst hnew
    refine ⟨?_, Nat.lt_of_lt_of_le hr hlists.length_le⟩
    rw [hlists.modules, hmodules, List.foldl_append]
  | read _ ih => exact ih

theorem listing_of_not_emptied (h : Later w log v) (hr : r < w.registries.length) (hkept : .emptied r ∉ log) :
    (v.registry r).modules = (w.registry r).modules ++ enlistings r log := by
  rw [(h.listing hr).1, relist_of_not_emptied hkept]

end Later

theorem exists_later (h : Changes w v) : ∃ log, v.notes = log.reverse ++ w.notes ∧ Later w log v := by
  obtain ⟨notes, hnotes, -⟩ := h.grows
  have hlog : v.notes = notes.reverse.reverse ++ w.notes := by rw [hnotes, List.reverse_reverse]
  exact ⟨notes.reverse, hlog, Later.here.changed h hlog⟩

theorem later_story (ops : List Operation) (w : World) : Later w (story ops w).1 (story ops w).2 := by
  induction ops generalizing w with
  | nil => exact .here
  | cons op ops ih =>
    have hnotes : (w.step op).2.2.notes = (w.step op).2.2.notes.reverse.reverse ++ [] := by
      rw [List.reverse_reverse, List.append_nil]
    exact (Later.here.read.changed (changes_step op w) hnotes).trans (ih _)

/-! ### Places -/

theorem lookup_eq_some_iff_mem {places : List (String × ℕ)} (hdistinct : (places.map (·.1)).Nodup) {name : String}
    {i : ℕ} : places.lookup name = some i ↔ (name, i) ∈ places := by
  rw [List.lookup_eq_some_iff]
  constructor
  · rintro ⟨front, back, rfl, -⟩
    exact List.mem_append_right _ List.mem_cons_self
  · intro hmem
    obtain ⟨front, back, rfl⟩ := List.append_of_mem hmem
    refine ⟨front, back, rfl, fun p hp ↦ ?_⟩
    rw [List.map_append, List.map_cons, List.nodup_append] at hdistinct
    have hne := hdistinct.2.2 p.1 (List.mem_map_of_mem hp) name List.mem_cons_self
    exact bne_iff_ne.2 hne.symm

/-- The places of a registry, its list, and what is found in it, say the same. -/
structure Consistent (r : ℕ) (w : World) : Prop where
  listed : (w.members r).map (·.1) = (w.registry r).modules
  distinct : ((w.members r).map (·.2.name)).Nodup
  places : (w.registry r).places = ((w.members r).map (·.2.name)).zipIdx
  placed (name : String) (i : ℕ) :
    (w.registry r).places.lookup name = some i ↔ ∃ p, (w.members r)[i]? = some p ∧ p.2.name = name
  got (name : String) (id : ℕ) : (w.registry r).get? name = some id ↔ ∃ p ∈ w.members r, p.2.name = name ∧ p.1 = id
  found (name : String) (p : ℕ × Module) : w.find r name = .ok p ↔ p ∈ w.members r ∧ p.2.name = name
  missed (name : String) (e : Error) :
    w.find r name = .error e ↔ e = .moduleNotFound name ∧ ∀ p ∈ w.members r, p.2.name ≠ name

theorem mem_members {p : ℕ × Module} :
    p ∈ w.members r ↔ p.1 ∈ (w.registry r).modules ∧ w.modules[p.1]? = some p.2 := by
  rw [members, List.mem_filterMap]
  constructor
  · rintro ⟨id, hid, hat⟩
    obtain ⟨m, hm, rfl⟩ := Option.map_eq_some_iff.1 hat
    exact ⟨hid, hm⟩
  · rintro ⟨hid, hm⟩
    exact ⟨p.1, hid, by rw [hm, Option.map_some]⟩

theorem find_cases (r : ℕ) (name : String) (w : World) :
    (∃ p, w.find r name = .ok p ∧ (w.registry r).get? name = some p.1 ∧ w.modules[p.1]? = some p.2) ∨
    w.find r name = .error (.moduleNotFound name) ∧
      ∀ id, (w.registry r).get? name = some id → w.modules[id]? = none := by
  cases hfound : ((w.registry r).get? name).bind fun id ↦ w.modules[id]?.map (id, ·) with
  | none =>
    refine .inr ⟨by rw [find, hfound], fun id hid ↦ ?_⟩
    rwa [hid, Option.bind_some, Option.map_eq_none_iff] at hfound
  | some p =>
    obtain ⟨id, hid, hat⟩ := Option.bind_eq_some_iff.1 hfound
    obtain ⟨m, hm, rfl⟩ := Option.map_eq_some_iff.1 hat
    exact .inl ⟨(id, m), by rw [find, hfound], hid, hm⟩

theorem find_eq_ok {name : String} {p : ℕ × Module} :
    w.find r name = .ok p ↔ (w.registry r).get? name = some p.1 ∧ w.modules[p.1]? = some p.2 := by
  rcases find_cases r name w with ⟨q, hfind, hid, hm⟩ | ⟨hfind, hnone⟩
  · rw [hfind, Except.ok.injEq]
    constructor
    · rintro rfl
      exact ⟨hid, hm⟩
    · rintro ⟨hid', hm'⟩
      have hsame : q.1 = p.1 := Option.some.inj (hid.symm.trans hid')
      exact Prod.ext hsame (Option.some.inj (hm.symm.trans (hsame ▸ hm')))
  · rw [hfind]
    constructor
    · intro h
      cases h
    · rintro ⟨hid, hm⟩
      rw [hnone p.1 hid] at hm
      cases hm

theorem find_eq_error {name : String} {e : Error} :
    w.find r name = .error e ↔ e = .moduleNotFound name ∧ ∀ p, w.find r name ≠ .ok p := by
  rcases find_cases r name w with ⟨q, hfind, -, -⟩ | ⟨hfind, -⟩ <;> rw [hfind]
  · constructor
    · intro h
      cases h
    · exact fun h ↦ absurd rfl (h.2 q)
  · rw [Except.error.injEq]
    constructor
    · rintro rfl
      refine ⟨rfl, fun p h ↦ ?_⟩
      cases h
    · exact fun h ↦ h.1.symm

theorem Sound.members (h : w.Sound) (r : ℕ) :
    (w.members r).map (·.1) = (w.registry r).modules ∧
    (w.members r).map (·.2.name) = (w.registry r).modules.map (nameOf w.modules) := by
  have hthere := (h.registry r).there
  have hat (id : ℕ) (hid : id ∈ (w.registry r).modules) :
      ∃ m, w.modules[id]? = some m ∧ nameOf w.modules id = m.name := by
    have hsome := List.getElem?_eq_getElem (hthere id hid)
    exact ⟨_, hsome, by rw [nameOf, hsome, Option.map_some, Option.getD_some]⟩
  rw [World.members, List.map_filterMap, List.map_filterMap]
  constructor
  · refine (List.filterMap_congr (g := some) fun id hid ↦ ?_).trans List.filterMap_some
    obtain ⟨m, hm, -⟩ := hat id hid
    rw [hm, Option.map_some, Option.map_some]
  · refine Eq.trans (List.filterMap_congr (g := some ∘ nameOf w.modules) fun id hid ↦ ?_)
      (congrFun List.filterMap_eq_map _)
    obtain ⟨m, hm, hname⟩ := hat id hid
    rw [hm, Option.map_some, Option.map_some, Function.comp_apply, hname]

theorem Sound.consistent (h : w.Sound) (r : ℕ) : Consistent r w := by
  obtain ⟨hlisted, hnames⟩ := h.members r
  have hdistinct : ((w.members r).map (·.2.name)).Nodup := hnames ▸ (h.registry r).distinct
  have hplaces : (w.registry r).places = ((w.members r).map (·.2.name)).zipIdx := hnames ▸ (h.registry r).places
  have hplaced (name : String) (i : ℕ) :
      (w.registry r).places.lookup name = some i ↔ ∃ p, (w.members r)[i]? = some p ∧ p.2.name = name := by
    rw [hplaces, lookup_eq_some_iff_mem (by rwa [List.zipIdx_map_fst]), List.mem_zipIdx_iff_getElem?, List.getElem?_map,
      Option.map_eq_some_iff]
  have hgot (name : String) (id : ℕ) :
      (w.registry r).get? name = some id ↔ ∃ p ∈ w.members r, p.2.name = name ∧ p.1 = id := by
    rw [Registry.get?, Option.bind_eq_some_iff, ← hlisted]
    constructor
    · rintro ⟨i, hi, hid⟩
      obtain ⟨p, hp, hname⟩ := (hplaced name i).1 hi
      rw [List.getElem?_map, hp, Option.map_some, Option.some.injEq] at hid
      exact ⟨p, List.mem_of_getElem? hp, hname, hid⟩
    · rintro ⟨p, hp, hname, hid⟩
      obtain ⟨i, hi⟩ := List.mem_iff_getElem?.1 hp
      exact ⟨i, (hplaced name i).2 ⟨p, hi, hname⟩, by rw [List.getElem?_map, hi, Option.map_some, hid]⟩
  have hfound (name : String) (p : ℕ × Module) : w.find r name = .ok p ↔ p ∈ w.members r ∧ p.2.name = name := by
    rw [find_eq_ok, hgot]
    constructor
    · rintro ⟨⟨q, hq, hname, hid⟩, hat⟩
      obtain rfl : q = p := Prod.ext hid (Option.some.inj ((mem_members.1 hq).2.symm.trans (hid ▸ hat)))
      exact ⟨hq, hname⟩
    · rintro ⟨hp, hname⟩
      exact ⟨⟨p, hp, hname, rfl⟩, (mem_members.1 hp).2⟩
  refine ⟨hlisted, hdistinct, hplaces, hplaced, hgot, hfound, fun name e ↦ ?_⟩
  rw [find_eq_error]
  simp only [ne_eq, hfound, not_and]

theorem Sound.has_iff (h : w.Sound) (r : ℕ) (name : String) :
    (w.registry r).has name ↔ ∃ p ∈ w.members r, p.2.name = name := by
  rw [(h.registry r).has_iff, ← (h.members r).2, List.mem_map]

/-! ### Registering -/

/-- The world in which the register hook of a module starts. -/
def begun (r id : ℕ) (m : Module) (w : World) : World := (w.enlist r id m.name).enter id m .registered

def registerHook (run : ScriptRunner) (r id : ℕ) (m : Module) (w : World) : Except Error Unit × World :=
  match m.hooks.lookup .onRegister with
  | none => (.ok (), w.begun r id m)
  | some script => run.during ⟨[r], [id]⟩ ⟨some id, some r, .nothing⟩ script (w.begun r id m)

variable {run : ScriptRunner} {id : ℕ} {m : Module}

theorem register_of_has (hat : w.modules[id]? = some m) (hhas : (w.registry r).has m.name) :
    register run r id w = (.error (.duplicateModule m.name), w) := by
  simp only [register, hat, hhas, if_true]

theorem register_of_not_has (run : ScriptRunner) (hat : w.modules[id]? = some m)
    (hnew : (w.registry r).has m.name = false) (hcan : m.state.canMove .registered) :
    register run r id w =
      ((registerHook run r id m w).1.mapError (m.blame .onRegister), (registerHook run r id m w).2) := by
  have hlisted : (w.enlist r id m.name).modules[id]? = some m := hat
  have hhook : runHook (run.during ⟨[r], [id]⟩) .onRegister id (some r)
      ((w.enlist r id m.name).moved id m .registered) = registerHook run r id m w :=
    runHook_moved _ (some r) rfl hlisted
  simp only [register, hat, hnew, Bool.false_eq_true, if_false, moveModule_of_canMove hlisted hcan, runEntry,
    getElem?_moved hlisted, hhook]
  rcases registerHook run r id m w with ⟨e | _, v⟩ <;> rfl

theorem changes_begun (hat : w.modules[id]? = some m) (hnew : (w.registry r).has m.name = false)
    (hcan : m.state.canMove .registered) : Changes w (w.begun r id m) := by
  have hlisted : (w.enlist r id m.name).modules[id]? = some m := hat
  exact (Changes.single (.enlisted hat hnew)).trans (.single (.entered hlisted hcan))

theorem changes_registerHook (hrun : run.Changing) (r id : ℕ) (m : Module) (w : World) :
    Changes (w.begun r id m) (registerHook run r id m w).2 := by
  rw [registerHook]
  split
  · exact .refl _
  · exact changing_during hrun _ _ _ _

theorem registry_begun (hr : r < w.registries.length) (id : ℕ) (m : Module) :
    ((w.begun r id m).registry r).modules = (w.registry r).modules ++ [id] ∧
    r < (w.begun r id m).registries.length := by
  have hset := registry_setRegistry_self hr ((w.registry r).push m.name id)
  exact ⟨congrArg Registry.modules hset, Nat.lt_of_lt_of_eq hr (length_registries_setRegistry w r _).symm⟩

/-- What follows for a registry that takes in a module. As long as it is not emptied, it lists the modules that it had
before, that module, and those that have been put into it since then, from the start of the register hook on. The hook
may fail, which changes nothing. -/
structure TakesIn (run : ScriptRunner) (r id : ℕ) (m : Module) (w : World) : Prop where
  begins : ∃ log, Later w log (w.begun r id m)
  lists : ∀ log u, Later (w.begun r id m) log u → .emptied r ∉ log →
    (u.registry r).modules = (w.registry r).modules ++ id :: enlistings r log
  ends : register run r id w =
    ((registerHook run r id m w).1.mapError (m.blame .onRegister), (registerHook run r id m w).2)
  keeps : ∃ log, (registerHook run r id m w).2.notes = log.reverse ++ (w.begun r id m).notes ∧
    Later (w.begun r id m) log (registerHook run r id m w).2 ∧
    (.emptied r ∉ log → id ∈ ((registerHook run r id m w).2.registry r).modules)

theorem takesIn (hrun : run.Changing) (hr : r < w.registries.length) (hat : w.modules[id]? = some m)
    (hcan : m.state.canMove .registered) (hnew : (w.registry r).has m.name = false) : TakesIn run r id m w := by
  obtain ⟨hmodules, hr'⟩ := registry_begun hr id m
  have hlists (log : List Note) (u : World) (h : Later (w.begun r id m) log u) (hkept : .emptied r ∉ log) :
      (u.registry r).modules = (w.registry r).modules ++ id :: enlistings r log := by
    rw [h.listing_of_not_emptied hr' hkept, hmodules, List.append_assoc, List.singleton_append]
  obtain ⟨before, -, hbegun⟩ := exists_later (changes_begun hat hnew hcan)
  obtain ⟨log, hnotes, hended⟩ := exists_later (changes_registerHook hrun r id m w)
  refine ⟨⟨before, hbegun⟩, hlists, register_of_not_has run hat hnew hcan, log, hnotes, hended, fun hkept ↦ ?_⟩
  rw [hlists log _ hended hkept]
  exact List.mem_append_right _ List.mem_cons_self

/-- At all times, in hooks as well as between operations, whatever has been done, the places of a registry say what its
list says, and a name finds the one module in the list that has it. The list is what has been put into the registry
since it was last emptied, in that order. A module with a name that is there is turned away, which changes nothing. Any
other is taken in before its register hook starts, and stays even if the hook fails, unless the registry is emptied. -/
theorem registries_consistent :
    (∀ ops w, Later w (story ops w).1 (story ops w).2) ∧
    (∀ depth c op w, ∃ log, Later w log (execute depth c op w).2) ∧
    (∀ w log v r, Later w log v → r < w.registries.length →
      (.emptied r ∉ log → (v.registry r).modules = (w.registry r).modules ++ enlistings r log) ∧
      ∀ front back, log = front ++ .emptied r :: back → .emptied r ∉ back →
        (v.registry r).modules = enlistings r back) ∧
    ∀ log w, Later fresh log w → ∀ r, Consistent r w ∧ ∀ (run : ScriptRunner) id m, w.modules[id]? = some m →
      ((∃ p ∈ w.members r, p.2.name = m.name) → register run r id w = (.error (.duplicateModule m.name), w)) ∧
      ((∀ p ∈ w.members r, p.2.name ≠ m.name) → run.Changing → r < w.registries.length →
        m.state.canMove .registered → TakesIn run r id m w) := by
  refine ⟨later_story, ?_, ?_, fun log w h r ↦ ?_⟩
  · intro depth c op w
    obtain ⟨log, -, hlater⟩ := exists_later (changes_execute depth c op w)
    exact ⟨log, hlater⟩
  · intro w log v r h hr
    refine ⟨h.listing_of_not_emptied hr, ?_⟩
    rintro front back rfl hkept
    rw [(h.listing hr).1, relist_of_emptied hkept]
  · have hsound := h.sound sound_fresh
    refine ⟨hsound.consistent r, fun run id m hat ↦ ⟨fun hthere ↦ ?_, fun hnew hrun hr hcan ↦ ?_⟩⟩
    · exact register_of_has hat ((hsound.has_iff r m.name).2 hthere)
    · refine takesIn hrun hr hat hcan ?_
      rw [← Bool.not_eq_true, hsound.has_iff]
      rintro ⟨p, hp, hname⟩
      exact hnew p hp hname

/-- A module that registers another one and then fails, and one that has its name. -/
def household : List Operation :=
  [.create "b" "b" .unit [] [],
    .create "a" "a" .unit [] [(.onRegister, [⟨.register "b", false, none⟩, ⟨.fail (.io .notFound), false, none⟩])],
    .create "c" "a" .unit [] []]

theorem registries_consistent_household :
    let run := runScript (execute 1)
    let w := (story household fresh).2
    let v := (register run 0 1 w).2
    let ops := household ++ [.register "a"]
    (∃ m, w.modules[1]? = some m ∧ TakesIn run 0 1 m w) ∧ (register run 0 1 w).1.toBool = false ∧
      (v.registry 0).modules = [1, 0] ∧ Consistent 0 v ∧
      register run 0 2 v = (.error (.duplicateModule "a"), v) ∧ .emptied 0 ∉ (story ops fresh).1 ∧
      ((story ops fresh).2.registry 0).modules = enlistings 0 (story ops fresh).1 := by
  intro run w v ops
  obtain ⟨hstory, -, hlists, hreached⟩ := registries_consistent
  have hw : Later fresh (story household fresh).1 w := hstory household fresh
  have hrun : ScriptRunner.Changing run := changing_runScript (changes_execute 1)
  obtain ⟨a, ha, hcreated⟩ : ∃ m, w.modules[1]? = some m ∧ m.state = .created := ⟨_, rfl, rfl⟩
  have htakes : TakesIn run 0 1 a w := by
    refine ((hreached _ w hw 0).2 run 1 a ha).2 (fun p hp ↦ ?_) hrun (by decide) (by rw [hcreated]; rfl)
    cases hp
  obtain ⟨before, hbefore⟩ := htakes.begins
  obtain ⟨log, -, hafter, -⟩ := htakes.keeps
  rw [← congrArg Prod.snd htakes.ends] at hafter
  have hv : Later fresh _ v := (hw.trans hbefore).trans hafter
  obtain ⟨c, hc, hname⟩ : ∃ m, v.modules[2]? = some m ∧ m.name = "a" := ⟨_, rfl, rfl⟩
  have hthere : ∃ p ∈ v.members 0, p.2.name = c.name := ⟨_, .head _, hname.symm⟩
  have hkept : .emptied 0 ∉ (story ops fresh).1 := by
    intro hmem
    have hall : (story ops fresh).1.all (fun n ↦ n matches .moved .. | .started .. | .enlisted ..) := by decide
    exact absurd (List.all_eq_true.1 hall _ hmem) (by decide)
  refine ⟨⟨a, ha, htakes⟩, by decide, by decide, (hreached _ v hv 0).1, ?_, hkept, ?_⟩
  · rw [((hreached _ v hv 0).2 run 2 c hc).1 hthere, hname]
  · exact (hlists fresh _ _ 0 (hstory ops fresh) (by decide)).1 hkept

/-- A register hook that empties the registry and fails leaves its module neither in the list nor in the registry. -/
theorem emptied_by_hook :
    let w := (story [.create "a" "a" .unit []
      [(.onRegister, [⟨.registry .destroyAll, false, none⟩, ⟨.fail (.stream (.custom "out of memory")), false, none⟩])]]
      fresh).2
    ∃ cause lines v, w.step (.register "a") = (.failed (.hookFailed "a" .onRegister cause), lines, v) ∧
      v.members 0 = [] ∧ (v.registry 0).get? "a" = none :=
  ⟨_, _, _, rfl, rfl, rfl⟩

end World
end GameHost
