import GameHost.Proofs.Module.Registries

namespace GameHost

def Note.start? : Note → Option (HookKind × Nat)
  | started hook id _ => some (hook, id)
  | _ => none

namespace World

def starts (w : World) : List (HookKind × Nat) := w.notes.reverse.filterMap Note.start?

def state? (w : World) (id : Nat) : Option ModuleState := w.modules[id]?.map (·.state)

def hasHook (w : World) (hook : HookKind) (id : Nat) : Bool := w.modules[id]?.any (·.has hook)

/-- The modules that there are keep their hooks, and those listed come to a state. -/
def Moved (target : ModuleState) (done : List Nat) (w v : World) : Prop :=
  ∀ (id : Nat) (m : Module), w.modules[id]? = some m → ∃ m', v.modules[id]? = some m' ∧ m'.hooks = m.hooks ∧
    m'.state = if id ∈ done then target else m.state

/-- A pass has moved the modules listed to a state and started their hooks for it, in that order, and has
moved and started nothing else. -/
structure Passed (hook : HookKind) (target : ModuleState) (done : List Nat) (w v : World) : Prop where
  moved : Moved target done w v
  starts : v.starts = w.starts ++ (done.filter (w.hasHook hook)).map (hook, ·)

/-- The run of a hook, by which no module moves and no other hook starts. -/
structure StartsOnly (hook : HookKind) (id : Nat) (w v : World) : Prop where
  kept : ∀ (j : Nat) (m : Module), w.modules[j]? = some m →
    ∃ m', v.modules[j]? = some m' ∧ m'.hooks = m.hooks ∧ m'.state = m.state
  starts : v.starts = w.starts ++ if w.hasHook hook id then [(hook, id)] else []

variable {w v u : World} {hook : HookKind} {target : ModuleState} {done more : List Nat} {id : Nat}

theorem starts_note (w : World) (n : Note) : (w.note n).starts = w.starts ++ n.start?.toList := by
  simp only [starts, note, List.reverse_cons, List.filterMap_append, List.filterMap_cons, List.filterMap_nil]
  cases n.start? <;> rfl

theorem starts_moved (w : World) (id : Nat) (m : Module) (target : ModuleState) :
    (w.moved id m target).starts = w.starts := by
  rw [World.moved, starts_note]
  exact List.append_nil _

theorem state?_eq_some {s : ModuleState} : w.state? id = some s ↔ ∃ m, w.modules[id]? = some m ∧ m.state = s :=
  Option.map_eq_some_iff

theorem exists_state? (hthere : id < w.modules.length) :
    ∃ m, w.modules[id]? = some m ∧ w.state? id = some m.state := by
  have hat := List.getElem?_eq_getElem hthere
  exact ⟨_, hat, state?_eq_some.2 ⟨_, hat, rfl⟩⟩

namespace Moved

theorem nil (target : ModuleState) (w : World) : Moved target [] w w := by
  intro id m hat
  exact ⟨m, hat, rfl, by simp⟩

theorem set {m after : Module} (hat : w.modules[id]? = some m) (hmodules : v.modules = w.modules.set id after)
    (hhooks : after.hooks = m.hooks) (hstate : after.state = target) : Moved target [id] w v := by
  intro j m' hat'
  rw [hmodules]
  by_cases hj : id = j
  · subst hj
    rw [hat, Option.some.injEq] at hat'
    subst hat'
    exact ⟨after, List.getElem?_set_self (List.getElem?_eq_some_iff.1 hat).1, hhooks, by simp [hstate]⟩
  · rw [List.getElem?_set_ne hj]
    exact ⟨m', hat', rfl, by simp [Ne.symm hj]⟩

theorem trans (h : Moved target done w v) (h' : Moved target more v u) : Moved target (done ++ more) w u := by
  intro id m hat
  obtain ⟨m', hat', hhooks, hstate⟩ := h id m hat
  obtain ⟨m'', hat'', hhooks', hstate'⟩ := h' id m' hat'
  refine ⟨m'', hat'', hhooks'.trans hhooks, ?_⟩
  rw [hstate', hstate]
  by_cases hmore : id ∈ more <;> by_cases hdone : id ∈ done <;> simp [hmore, hdone]

theorem again {next : ModuleState} (h : Moved target done w v) (h' : Moved next done v u) :
    Moved next done w u := by
  intro id m hat
  obtain ⟨m', hat', hhooks, hstate⟩ := h id m hat
  obtain ⟨m'', hat'', hhooks', hstate'⟩ := h' id m' hat'
  refine ⟨m'', hat'', hhooks'.trans hhooks, ?_⟩
  rw [hstate', hstate]
  split <;> rfl

theorem hasHook_eq (h : Moved target done w v) (hook : HookKind) {id : Nat} (hthere : id < w.modules.length) :
    v.hasHook hook id = w.hasHook hook id := by
  have hat := List.getElem?_eq_getElem hthere
  obtain ⟨m', hat', hhooks, -⟩ := h id _ hat
  rw [hasHook, hasHook, hat, hat', Option.any_some, Option.any_some, Module.has_congr hhooks]

theorem state?_eq (h : Moved target done w v) {s : ModuleState} (hs : w.state? id = some s) :
    v.state? id = some (if id ∈ done then target else s) := by
  obtain ⟨m, hat, rfl⟩ := state?_eq_some.1 hs
  obtain ⟨m', hat', -, hstate⟩ := h id m hat
  exact state?_eq_some.2 ⟨m', hat', hstate⟩

theorem length_le (h : Moved target done w v) : w.modules.length ≤ v.modules.length := by
  by_contra hlt
  have hlast : v.modules.length < w.modules.length := Nat.lt_of_not_le hlt
  obtain ⟨m', hat', -, -⟩ := h v.modules.length _ (List.getElem?_eq_getElem hlast)
  exact absurd (List.getElem?_eq_some_iff.1 hat').1 (Nat.lt_irrefl _)

end Moved

theorem StartsOnly.moved (h : StartsOnly hook id w v) : Moved target [] w v := by
  intro j m hat
  simpa using h.kept j m hat

namespace Passed

theorem nil (hook : HookKind) (target : ModuleState) (w : World) : Passed hook target [] w w :=
  ⟨.nil target w, by simp⟩

theorem trans (h : Passed hook target done w v) (h' : Passed hook target more v u)
    (hthere : ∀ id ∈ more, id < w.modules.length) : Passed hook target (done ++ more) w u := by
  refine ⟨h.moved.trans h'.moved, ?_⟩
  have hsame : more.filter (v.hasHook hook) = more.filter (w.hasHook hook) :=
    List.filter_congr fun id hid ↦ h.moved.hasHook_eq hook (hthere id hid)
  rw [h'.starts, h.starts, hsame, List.filter_append, List.map_append, List.append_assoc]

theorem one {m : Module} (hat : w.modules[id]? = some m)
    (hquiet : StartsOnly hook id (w.moved id m target) v) : Passed hook target [id] w v := by
  have hlt := (List.getElem?_eq_some_iff.1 hat).1
  have hmoved : Moved target [id] w (w.moved id m target) := .set hat rfl rfl rfl
  refine ⟨hmoved.trans hquiet.moved, ?_⟩
  rw [hquiet.starts, hmoved.hasHook_eq hook hlt, starts_moved, List.filter_singleton]
  cases w.hasHook hook id <;> simp

end Passed

/-- The hooks of a pass run quietly, in the worlds in which the pass comes to their modules. -/
def PassesQuietly (run : ScriptRunner) (hook : HookKind) (target : ModuleState)
    (comes : List Nat → World → Prop) (ids : List Nat) : Prop :=
  ∀ front id rest v u, ids = front ++ id :: rest → comes front v → moveModule id target v = (.ok (), u) →
    StartsOnly hook id u (runHook run hook id none u).2

theorem PassesQuietly.tail {run : ScriptRunner} {comes comes' : List Nat → World → Prop} {ids : List Nat}
    (h : PassesQuietly run hook target comes (id :: ids)) (hcomes : ∀ front v, comes' front v → comes (id :: front) v) :
    PassesQuietly run hook target comes' ids := by
  rintro front j rest v u rfl hv hmove
  exact h (id :: front) j rest v u rfl (hcomes front v hv) hmove

section

variable {run : ScriptRunner} {ids : List Nat}

/-- The pass has been over some modules, whose hooks have all succeeded, and is in a world now. -/
def HasInitialized (run : ScriptRunner) (w : World) (front : List Nat) (v : World) : Prop :=
  each (initializeOne run) front w = (.ok (), v)

theorem runEntry_eq_error {registry : Option Nat} {e : Error}
    (h : runEntry run hook id registry w = (.error e, v)) :
    ∃ cause, runHook run hook id registry w = (.error cause, v) := by
  rcases hran : runHook run hook id registry w with ⟨cause | _, last⟩
  · have hsame := runEntry_snd run hook id registry w
    rw [h, hran] at hsame
    exact ⟨cause, congrArg _ hsame.symm⟩
  · cases hat : w.modules[id]? <;> simp [runEntry, hran, hat] at h

theorem initializeOne_of_registered (run : ScriptRunner) (hregistered : w.state? id = some .registered) :
    ∃ m, w.modules[id]? = some m ∧ moveModule id .initialized w = (.ok (), w.moved id m .initialized) ∧
      initializeOne run id w = runEntry run .onInit id none (w.moved id m .initialized) := by
  obtain ⟨m, hat, hstate⟩ := state?_eq_some.1 hregistered
  have hcan : m.state.canMove .initialized := by
    rw [hstate]
    rfl
  have hmove := moveModule_of_canMove hat hcan
  exact ⟨m, hat, hmove, by simp only [initializeOne, hmove]⟩

def FailsToInitialize (run : ScriptRunner) (id : Nat) (w last : World) : Prop :=
  ∃ u cause, moveModule id .initialized w = (.ok (), u) ∧ runHook run .onInit id none u = (.error cause, last)

theorem each_initializeOne (hnodup : ids.Nodup) (hregistered : ∀ id ∈ ids, w.state? id = some .registered)
    (hquiet : PassesQuietly run .onInit .initialized (HasInitialized run w) ids) :
    (∃ v, HasInitialized run w ids v ∧ Passed .onInit .initialized ids w v) ∨
    ∃ front id rest v last e, ids = front ++ id :: rest ∧ HasInitialized run w front v ∧
      FailsToInitialize run id v last ∧ each (initializeOne run) ids w = (.error e, last) ∧
      Passed .onInit .initialized (front ++ [id]) w last := by
  induction ids generalizing w with
  | nil => exact .inl ⟨w, rfl, .nil _ _ w⟩
  | cons id ids ih =>
    obtain ⟨m, hat, hmove, hentry⟩ := initializeOne_of_registered run (hregistered id List.mem_cons_self)
    have hfirst : Passed .onInit .initialized [id] w (initializeOne run id w).2 := by
      rw [hentry, runEntry_snd]
      exact .one hat (hquiet [] id ids w _ rfl rfl hmove)
    obtain ⟨hnotin, hnodup⟩ := List.nodup_cons.1 hnodup
    rcases hone : initializeOne run id w with ⟨e | _, v⟩
    · obtain ⟨cause, hran⟩ := runEntry_eq_error (hentry.symm.trans hone)
      rw [hone] at hfirst
      refine .inr ⟨[], id, ids, w, v, e, rfl, rfl, ⟨_, cause, hmove, hran⟩, ?_, hfirst⟩
      simp only [each, hone]
    · rw [hone] at hfirst
      have hthere (j : Nat) (hj : j ∈ ids) : j < w.modules.length := by
        obtain ⟨m, hat, -⟩ := state?_eq_some.1 (hregistered j (List.mem_cons_of_mem _ hj))
        exact (List.getElem?_eq_some_iff.1 hat).1
      have hnext (j : Nat) (hj : j ∈ ids) : v.state? j = some .registered := by
        rw [hfirst.moved.state?_eq (hregistered j (List.mem_cons_of_mem _ hj)), if_neg]
        rw [List.mem_singleton]
        rintro rfl
        exact hnotin hj
      have hcomes (front : List Nat) (u : World) (h : HasInitialized run v front u) :
          HasInitialized run w (id :: front) u := by
        rw [HasInitialized, each, hone]
        exact h
      rcases ih hnodup hnext (hquiet.tail hcomes) with ⟨last, hall, hpassed⟩ |
        ⟨front, j, rest, u, last, e, rfl, hfront, hfails, heach, hpassed⟩
      · exact .inl ⟨last, hcomes ids last hall, hfirst.trans hpassed hthere⟩
      · refine .inr ⟨id :: front, j, rest, u, last, e, rfl, hcomes front u hfront, hfails, ?_, ?_⟩
        · simp only [each, hone, heach]
        · refine hfirst.trans hpassed fun i hi ↦ hthere i ?_
          rw [List.append_cons]
          exact List.mem_append_left _ hi

theorem each_startOne (hnodup : ids.Nodup) (hinitialized : ∀ id ∈ ids, w.state? id = some .initialized) :
    ∃ v, each startOne ids w = (.ok (), v) ∧ Moved .running ids w v ∧ v.starts = w.starts := by
  induction ids generalizing w with
  | nil => exact ⟨w, rfl, .nil _ w, rfl⟩
  | cons id ids ih =>
    obtain ⟨m, hat, hstate⟩ := state?_eq_some.1 (hinitialized id List.mem_cons_self)
    have hcan : m.state.canMove .running := by
      rw [hstate]
      rfl
    obtain ⟨hnotin, hnodup⟩ := List.nodup_cons.1 hnodup
    have hfirst : Moved .running [id] w (w.enter id m .running) := .set hat rfl rfl rfl
    have hnext (j : Nat) (hj : j ∈ ids) : (w.enter id m .running).state? j = some .initialized := by
      rw [hfirst.state?_eq (hinitialized j (List.mem_cons_of_mem _ hj)), if_neg]
      rw [List.mem_singleton]
      rintro rfl
      exact hnotin hj
    obtain ⟨v, heach, hmoved, hstarts⟩ := ih hnodup hnext
    refine ⟨v, ?_, hfirst.trans hmoved, ?_⟩
    · simp only [each, startOne_of_canMove hat hcan, heach]
    · rw [hstarts]
      simp [starts, enter, ModuleState.hook?, setModule, note, noteAll, Note.start?]

theorem startsOnly_runExit (h : StartsOnly hook id w (runHook run hook id none w).2) :
    StartsOnly hook id w (runExit run hook id w) := by
  rcases hran : runHook run hook id none w with ⟨e | _, v⟩
  · rw [hran] at h
    simp only [runExit, hran]
    refine ⟨h.kept, ?_⟩
    rw [starts_note, h.starts, List.append_assoc]
    simp [Note.start?]
  · rw [hran] at h
    simp only [runExit, hran]
    exact h

theorem foldl_leaveOne {source : ModuleState} (hsource : ∀ s : ModuleState, s.canMove target ↔ s = source)
    (hnodup : ids.Nodup) (hthere : ∀ id ∈ ids, id < w.modules.length)
    (hquiet : PassesQuietly run hook target (fun front v ↦ v = front.foldl (leaveOne run target hook) w) ids) :
    Passed hook target (ids.filter fun id ↦ w.state? id = some source) w
      (ids.foldl (leaveOne run target hook) w) := by
  induction ids generalizing w with
  | nil => exact .nil _ _ w
  | cons id ids ih =>
    obtain ⟨hnotin, hnodup⟩ := List.nodup_cons.1 hnodup
    obtain ⟨m, hat, hm⟩ := exists_state? (hthere id List.mem_cons_self)
    have hrest (j : Nat) (hj : j ∈ ids) := hthere j (List.mem_cons_of_mem _ hj)
    by_cases hstate : m.state = source
    · have hmove := moveModule_of_canMove hat ((hsource m.state).2 hstate)
      have hfirst : Passed hook target [id] w (leaveOne run target hook w id) := by
        simp only [leaveOne, hmove]
        exact .one hat (startsOnly_runExit (hquiet [] id ids w _ rfl rfl hmove))
      have hsame : ids.filter (fun j ↦ (leaveOne run target hook w id).state? j = some source) =
          ids.filter (fun j ↦ w.state? j = some source) := by
        apply List.filter_congr
        intro j hj
        obtain ⟨_, -, hj'⟩ := exists_state? (hrest j hj)
        have hother : j ∉ [id] := by
          rw [List.mem_singleton]
          rintro rfl
          exact hnotin hj
        rw [hfirst.moved.state?_eq hj', if_neg hother, hj']
      have hlast := ih hnodup (fun j hj ↦ Nat.lt_of_lt_of_le (hrest j hj) hfirst.moved.length_le)
        (hquiet.tail fun _ _ h ↦ h)
      rw [hsame] at hlast
      simp only [List.filter_cons, hm, hstate, decide_true, if_true]
      exact hfirst.trans hlast fun j hj ↦ hrest j (List.mem_of_mem_filter hj)
    · have hcan : ¬ m.state.canMove target := by rwa [hsource]
      have hleft : leaveOne run target hook w id = w := by
        simp only [leaveOne, moveModule_of_not_canMove hat hcan]
      simp only [List.filter_cons, hm, Option.some.injEq, hstate, decide_false, Bool.false_eq_true, if_false,
        List.foldl_cons, hleft]
      refine ih hnodup hrest (hquiet.tail fun front v h ↦ ?_)
      rw [List.foldl_cons, hleft]
      exact h

end

def atWork (run : ScriptRunner) (r : Nat) (w : World) : ScriptRunner :=
  run.during ⟨[r], (w.registry r).modules⟩

/-- What comes of an initialize pass: all hooks succeed and all modules run, or the first hook that fails
ends the pass. -/
inductive Initialized (run : ScriptRunner) (ids : List Nat) (w : World) : Except Error Unit × World → Prop
  | completed {v last : World} (hhooks : HasInitialized run w ids v) (hmoved : Moved .running ids w last)
      (hstarts : last.starts = w.starts ++ (ids.filter (w.hasHook .onInit)).map (.onInit, ·)) :
      Initialized run ids w (.ok (), last)
  | stopped {front rest : List Nat} {id : Nat} {v last : World} {e : Error} (hids : ids = front ++ id :: rest)
      (hhooks : HasInitialized run w front v) (hfails : FailsToInitialize run id v last)
      (hpassed : Passed .onInit .initialized (front ++ [id]) w last) :
      Initialized run ids w (.error e, last)

theorem initialized_initializeAll {run : ScriptRunner} {r : Nat} (hsound : w.Sound)
    (hregistered : ∀ id ∈ (w.registry r).modules, w.state? id = some .registered)
    (hquiet : PassesQuietly (atWork run r w) .onInit .initialized (HasInitialized (atWork run r w) w)
      (w.registry r).modules) :
    Initialized (atWork run r w) (w.registry r).modules w (initializeAll run r w) := by
  have hnodup := (hsound.registry r).nodup
  rcases each_initializeOne hnodup hregistered hquiet with ⟨v, hall, hpassed⟩ |
    ⟨front, id, rest, v, last, e, hids, hhooks, hfails, heach, hpassed⟩
  · have hinitialized (id : Nat) (hid : id ∈ (w.registry r).modules) : v.state? id = some .initialized := by
      rw [hpassed.moved.state?_eq (hregistered id hid), if_pos hid]
    obtain ⟨last, hstarted, hmoved, hstarts⟩ := each_startOne hnodup hinitialized
    have hfirst : each (initializeOne (run.during ⟨[r], (w.registry r).modules⟩)) (w.registry r).modules w =
        (.ok (), v) := hall
    simp only [initializeAll, hfirst, hstarted]
    exact .completed hall (hpassed.moved.again hmoved) (hstarts.trans hpassed.starts)
  · have hfirst : each (initializeOne (run.during ⟨[r], (w.registry r).modules⟩)) (w.registry r).modules w =
        (.error e, last) := heach
    simp only [initializeAll, hfirst]
    exact .stopped hids hhooks hfails hpassed

def HasLeft (run : ScriptRunner) (target : ModuleState) (hook : HookKind) (w : World) (front : List Nat)
    (v : World) : Prop :=
  v = front.foldl (leaveOne run target hook) w

/-- Whatever operations are run, with hooks that succeed, fail or run operations themselves, every module
keeps to the course of its life. As long as hooks leave the lives of modules alone, an initialize pass over
registered modules runs their hooks in order up to the first that fails, and exit passes run the hooks of
exactly the modules that can leave, in reverse order, whether or not they fail. -/
theorem lifecycle_inOrder :
    (∀ ops, (story ops fresh).2.Sound ∧ ∀ (id : Nat) (m : Module), (story ops fresh).2.modules[id]? = some m →
      Course m.has (deeds id (story ops fresh).1) m.state) ∧
    ∀ (run : ScriptRunner) (r : Nat) (w : World), w.Sound →
      let ids := (w.registry r).modules
      let inner := atWork run r w
      ((∀ id ∈ ids, w.state? id = some .registered) →
        PassesQuietly inner .onInit .initialized (HasInitialized inner w) ids →
        Initialized inner ids w (initializeAll run r w)) ∧
      (PassesQuietly inner .onClose .closed (HasLeft inner .closed .onClose w) ids.reverse →
        Passed .onClose .closed (ids.reverse.filter fun id ↦ w.state? id = some .running) w
          (closeAll run r w)) ∧
      (PassesQuietly inner .onShutdown .shutdown (HasLeft inner .shutdown .onShutdown w) ids.reverse →
        Passed .onShutdown .shutdown (ids.reverse.filter fun id ↦ w.state? id = some .closed) w
          (shutdownAll run r w)) := by
  refine ⟨fun ops ↦ ⟨sound_fresh.story ops, fun id m hat ↦ ?_⟩, fun run r w hsound ↦ ⟨?_, ?_, ?_⟩⟩
  · have hgrown := grown_story ops fresh id
    rw [hat] at hgrown
    exact hgrown.life.course
  · exact initialized_initializeAll hsound
  · intro hquiet
    have hregistry := hsound.registry r
    exact foldl_leaveOne (by intro s; cases s <;> decide) (List.nodup_reverse.2 hregistry.nodup)
      (fun id hid ↦ hregistry.there id (List.mem_reverse.1 hid)) hquiet
  · intro hquiet
    have hregistry := hsound.registry r
    exact foldl_leaveOne (by intro s; cases s <;> decide) (List.nodup_reverse.2 hregistry.nodup)
      (fun id hid ↦ hregistry.there id (List.mem_reverse.1 hid)) hquiet

theorem PassesQuietly.pair {run : ScriptRunner} {comes : List Nat → World → Prop} {i j : Nat}
    (hfirst : ∀ v, comes [] v →
      StartsOnly hook i (moveModule i target v).2 (runHook run hook i none (moveModule i target v).2).2)
    (hsecond : ∀ v, comes [i] v →
      StartsOnly hook j (moveModule j target v).2 (runHook run hook j none (moveModule j target v).2).2) :
    PassesQuietly run hook target comes [i, j] := by
  intro front id rest v u hids hv hmove
  obtain rfl : (moveModule id target v).2 = u := congrArg Prod.snd hmove
  match front with
  | [] =>
    obtain ⟨rfl, -⟩ := List.cons.inj hids
    exact hfirst v hv
  | [a] =>
    obtain ⟨rfl, hrest⟩ := List.cons.inj hids
    obtain ⟨rfl, -⟩ := List.cons.inj hrest
    exact hsecond v hv
  | a :: b :: front =>
    have hlength := congrArg List.length hids
    simp at hlength

def twoModules (script : Script) : List Operation :=
  [.create "a" "a" .unit [] [(.onInit, []), (.onClose, [⟨.log "a closes", false, none⟩])],
    .create "b" "b" .unit [] [(.onInit, script), (.onClose, [⟨.fail (.io .notFound), false, none⟩])],
    .register "a", .register "b"]

theorem lifecycle_inOrder_sample :
    let run := runScript (execute 1)
    let w := (story (twoModules [⟨.fail (.io .notFound), false, none⟩]) fresh).2
    let v := (story (twoModules [] ++ [.registry .initializeAll]) fresh).2
    (w.Sound ∧ (∀ id ∈ [0, 1], w.state? id = some .registered) ∧
      PassesQuietly (atWork run 0 w) .onInit .initialized (HasInitialized (atWork run 0 w) w) [0, 1] ∧
      Initialized (atWork run 0 w) [0, 1] w (initializeAll run 0 w)) ∧
    v.Sound ∧ PassesQuietly (atWork run 0 v) .onClose .closed (HasLeft (atWork run 0 v) .closed .onClose v) [1, 0] ∧
      Passed .onClose .closed [1, 0] v (closeAll run 0 v) := by
  intro run w v
  have hw : w.Sound := (lifecycle_inOrder.1 _).1
  have hv : v.Sound := (lifecycle_inOrder.1 _).1
  have hregistered : ∀ id ∈ [0, 1], w.state? id = some .registered := by decide
  have hinitializes : PassesQuietly (atWork run 0 w) .onInit .initialized (HasInitialized (atWork run 0 w) w)
      [0, 1] := by
    refine .pair ?_ ?_
    · rintro _ ⟨⟩
      exact ⟨fun j m hat ↦ ⟨m, hat, rfl, rfl⟩, by decide⟩
    · intro _ h
      obtain rfl : (each (initializeOne (atWork run 0 w)) [0] w).2 = _ := congrArg Prod.snd h
      exact ⟨fun j m hat ↦ ⟨m, hat, rfl, rfl⟩, by decide⟩
  have hcloses : PassesQuietly (atWork run 0 v) .onClose .closed (HasLeft (atWork run 0 v) .closed .onClose v)
      [1, 0] := by
    refine .pair ?_ ?_
    · rintro _ rfl
      exact ⟨fun j m hat ↦ ⟨m, hat, rfl, rfl⟩, by decide⟩
    · rintro _ rfl
      exact ⟨fun j m hat ↦ ⟨m, hat, rfl, rfl⟩, by decide⟩
  exact ⟨⟨hw, hregistered, hinitializes, (lifecycle_inOrder.2 run 0 w hw).1 hregistered hinitializes⟩,
    hv, hcloses, (lifecycle_inOrder.2 run 0 v hv).2.1 hcloses⟩

end World
end GameHost
