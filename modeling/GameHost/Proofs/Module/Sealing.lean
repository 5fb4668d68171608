import GameHost.Proofs.Module.Attachments
import GameHost.Proofs.Module.Passes

namespace GameHost

namespace RecordTable

variable {V β : Type} {t after last : RecordTable V β} {kind : UInt32}

def shape? (t : RecordTable V β) (kind : UInt32) : Option (Part V × List (Attachment V) × ℕ) :=
  (t.layout? kind).map fun l ↦ (l.base, l.attached, l.size)

/-- The table is closed, and only the hooks of its kinds have changed, if anything has. -/
structure Frozen (t after : RecordTable V β) : Prop where
  closed : after.closed
  owner : after.owner = t.owner
  shape (kind : UInt32) : after.shape? kind = t.shape? kind

theorem Frozen.refl (h : t.closed) : t.Frozen t := ⟨h, rfl, fun _ ↦ rfl⟩

theorem Frozen.trans (h : t.Frozen after) (h' : after.Frozen last) : t.Frozen last :=
  ⟨h'.closed, h'.owner.trans h.owner, fun kind ↦ (h'.shape kind).trans (h.shape kind)⟩

theorem Frozen.create (h : t.Frozen after) (kind : UInt32) : after.create kind = t.create kind := by
  have hshape := h.shape kind
  have hcheck : after.checkKind kind = t.checkKind kind := by rw [checkKind, checkKind, h.owner]
  simp only [shape?] at hshape
  simp only [RecordTable.create, layout, hcheck]
  cases t.checkKind kind with
  | error e => rfl
  | ok _ =>
    cases hat : t.layout? kind with
    | none =>
      rw [hat, Option.map_none, Option.map_eq_none_iff] at hshape
      rw [hshape]
    | some l =>
      rw [hat, Option.map_some, Option.map_eq_some_iff] at hshape
      obtain ⟨l', hat', heq⟩ := hshape
      simp only [Prod.mk.injEq] at heq
      rw [hat']
      simp only [bind, Except.bind, heq]

variable {τ : Type} [Typed V τ]

theorem Altered.frozen (h : t.Altered after) (hclosed : t.closed) : t.Frozen after := by
  cases h with
  | laidOut _ hopen _ | extended _ hopen _ =>
    rw [hclosed] at hopen
    cases hopen
  | @hooked kind hook l hat =>
    refine ⟨hclosed, rfl, fun k ↦ ?_⟩
    rw [shape?, shape?, layout?_put (lt_of_layout? hat)]
    split
    · next heq =>
      rw [heq, hat]
      rfl
    · rfl
  | closed => exact ⟨rfl, rfl, fun _ ↦ rfl⟩

theorem setLayout_of_closed (h : t.closed) (kind : UInt32) (base : Part V) : ∃ e, t.setLayout kind base = .error e := by
  rcases t.setLayout_cases kind base with ⟨_, -, hopen, -, -⟩ | ⟨e, hset, -⟩
  · rw [h] at hopen
    cases hopen
  · exact ⟨e, hset⟩

theorem attach_of_closed (h : t.closed) (kind : UInt32) (requester : String) (part : Part V) :
    ∃ e, t.attach kind requester part = .error e := by
  rcases t.attach_cases kind requester part with ⟨_, -, hopen, -, -⟩ | ⟨e, hattach, -⟩
  · rw [h] at hopen
    cases hopen
  · exact ⟨e, hattach⟩

end RecordTable

/-- What can become of a module at once. -/
inductive Module.Becomes (m : Module) : Module → Prop
  | same : Becomes m m
  | tended {after : Module} (h : m.Tended after) : Becomes m after
  | arrived {target : ModuleState} (hmove : m.state.canMove target) : Becomes m (m.arrive target)

/-- The same where there may be no module, or a new one. -/
inductive Comes : Option Module → Option Module → Prop
  | absent : Comes none none
  | made {m : Module} (hstate : m.state = .created) (hrecords : m.records = .empty m.name) : Comes none (some m)
  | kept {m after : Module} (h : m.Becomes after) : Comes (some m) (some after)

namespace Module

/-- Modules that run or have run have their records closed. -/
def Settled (m : Module) : Prop :=
  m.state = .running ∨ m.state = .closed ∨ m.state = .shutdown → m.records.closed

variable {m after : Module}

theorem Tended.records (h : m.Tended after) : after.records = m.records ∨ m.records.Altered after.records := by
  cases h with
  | valued | subscribed => exact .inl rfl
  | laidOut h => exact .inr (RecordTable.altered_setLayout h)
  | attached h => exact .inr (RecordTable.altered_attach h)
  | hooked h => exact .inr (RecordTable.altered_addHook h)

theorem Becomes.records (h : m.Becomes after) : after.records = m.records ∨ m.records.Altered after.records := by
  cases h with
  | same => exact .inl rfl
  | tended h => exact h.records
  | arrived hmove =>
    simp only [arrive]
    split
    · exact .inr .closed
    · exact .inl rfl

theorem Becomes.frozen (h : m.Becomes after) (hclosed : m.records.closed) : m.records.Frozen after.records := by
  rcases h.records with heq | haltered
  · rw [heq]
    exact .refl hclosed
  · exact haltered.frozen hclosed

theorem Tended.state_eq (h : m.Tended after) : after.state = m.state := by cases h <;> rfl

theorem Becomes.settled (h : m.Becomes after) (hm : m.Settled) : after.Settled := by
  intro hstate
  cases h with
  | same => exact hm hstate
  | tended htended =>
    rw [htended.state_eq] at hstate
    exact (Becomes.frozen (.tended htended) (hm hstate)).closed
  | @arrived target hmove =>
    -- Closing comes with the move to `running`, and the states behind that are reached from there only.
    by_cases hrunning : target = .running
    · simp only [arrive, if_pos hrunning]
      rfl
    · refine (Becomes.frozen (.arrived hmove) (hm ?_)).closed
      have htarget : target = .closed ∨ target = .shutdown := hstate.resolve_left hrunning
      rcases htarget with rfl | rfl
      · exact .inl (ModuleState.source_unique hmove rfl (by decide))
      · exact .inr (.inl (ModuleState.source_unique hmove rfl (by decide)))

end Module

namespace World

variable {w v u : World} {id : ℕ} {m : Module}

theorem comes_set {after : Module} (hat : w.modules[id]? = some m) (h : m.Becomes after) (j : ℕ) :
    Comes w.modules[j]? (w.modules.set id after)[j]? := by
  by_cases hj : id = j
  · subst hj
    rw [List.getElem?_set_self (List.getElem?_eq_some_iff.1 hat).1, hat]
    exact .kept h
  · rw [List.getElem?_set_ne hj]
    cases w.modules[j]? with
    | none => exact .absent
    | some m => exact .kept .same

theorem comes_self (w : World) (id : ℕ) : Comes w.modules[id]? w.modules[id]? := by
  cases w.modules[id]? with
  | none => exact .absent
  | some m => exact .kept .same

theorem Change.comes (h : Change w v) (id : ℕ) : Comes w.modules[id]? v.modules[id]? := by
  cases h with
  | aside hmodules _ _ =>
    rw [hmodules]
    exact comes_self w id
  | @made name state deps hooks m hmade =>
    rcases Nat.lt_trichotomy id w.modules.length with hlt | rfl | hgt
    · rw [List.getElem?_append_left hlt]
      exact comes_self w id
    · rw [List.getElem?_concat_length, List.getElem?_eq_none (Nat.le_refl _)]
      simp only [Module.create] at hmade
      split at hmade <;> cases hmade
      exact .made rfl rfl
    · rw [List.getElem?_eq_none (Nat.le_of_lt hgt), List.getElem?_eq_none (by rw [List.length_append]; exact hgt)]
      exact .absent
  | tended hat htended => exact comes_set hat (.tended htended) id
  | entered hat hmove => exact comes_set hat (.arrived hmove) id
  | opened | enlisted | emptied => exact comes_self w id

/-- What can come after a world: operations are run one after another, by themselves or by scripts, and the notes are
read in between. Hooks and handlers find worlds in the middle of an operation, which changes lead to. -/
inductive Follows (w : World) : World → Prop
  | here : Follows w w
  | ran {v : World} (h : Follows w v) (depth : ℕ) (c : Context) (op : Operation) : Follows w (execute depth c op v).2
  | amid {v u : World} (h : Follows w v) (hchanges : Changes v u) : Follows w u
  | read {v : World} (h : Follows w v) : Follows w { v with notes := [] }

theorem Follows.trans (h : Follows w v) (h' : Follows v u) : Follows w u := by
  induction h' with
  | here => exact h
  | ran _ depth c op ih => exact ih.ran depth c op
  | amid _ hchanges ih => exact ih.amid hchanges
  | read _ ih => exact ih.read

theorem follows_story (ops : List Operation) (w : World) : Follows w (story ops w).2 := by
  induction ops generalizing w with
  | nil => exact .here
  | cons op ops ih => exact (Follows.here.read.ran maxDepth .outside op).trans (ih _)

theorem Changes.invariant {P : List Module → Prop} (hkept : ∀ w v : World, P w.modules → Change w v → P v.modules)
    (h : Changes w v) (hw : P w.modules) : P v.modules := by
  induction h with
  | refl => exact hw
  | tail _ hlast ih => exact hkept _ _ ih hlast

theorem Follows.invariant {P : List Module → Prop} (hkept : ∀ w v : World, P w.modules → Change w v → P v.modules)
    (h : Follows w v) (hw : P w.modules) : P v.modules := by
  induction h with
  | here => exact hw
  | ran _ depth c op ih => exact (changes_execute depth c op _).invariant hkept ih
  | amid _ hchanges ih => exact hchanges.invariant hkept ih
  | read _ ih => exact ih

theorem Follows.forall_modules {P : Module → Prop}
    (hmade : ∀ m, m.state = .created → m.records = .empty m.name → P m)
    (hkept : ∀ m after : Module, P m → m.Becomes after → P after) (h : Follows fresh w) :
    ∀ (id : ℕ) (m : Module), w.modules[id]? = some m → P m := by
  refine h.invariant (P := fun modules ↦ ∀ (id : ℕ) (m : Module), modules[id]? = some m → P m) ?_ ?_
  · intro w v hall hchange id m hat
    have hcomes := hchange.comes id
    rw [hat] at hcomes
    generalize hbefore : w.modules[id]? = before at hcomes
    cases hcomes with
    | made hstate hrecords => exact hmade m hstate hrecords
    | kept hbecomes => exact hkept _ m (hall id _ hbefore) hbecomes
  · intro id m hat
    cases hat

/-- A module does not go away, and what holds of all that becomes of it goes on to hold. -/
theorem Follows.exists_module {P : Module → Prop} (hkept : ∀ m after : Module, P m → m.Becomes after → P after)
    (h : Follows w v) (hat : w.modules[id]? = some m) (hm : P m) : ∃ m', v.modules[id]? = some m' ∧ P m' := by
  refine h.invariant (P := fun modules ↦ ∃ m', modules[id]? = some m' ∧ P m') ?_ ⟨m, hat, hm⟩
  rintro w v ⟨m, hat, hm⟩ hchange
  have hcomes := hchange.comes id
  rw [hat] at hcomes
  generalize v.modules[id]? = after at hcomes ⊢
  cases hcomes with
  | kept hbecomes => exact ⟨_, rfl, hkept _ _ hm hbecomes⟩

theorem Follows.settled (h : Follows fresh w) : ∀ (id : ℕ) (m : Module), w.modules[id]? = some m → m.Settled := by
  refine h.forall_modules (fun m hstate _ hrun ↦ ?_) fun m after hm hbecomes ↦ hbecomes.settled hm
  rw [hstate] at hrun
  rcases hrun with hrun | hrun | hrun <;> cases hrun

theorem Follows.tiled (h : Follows fresh w) :
    ∀ (id : ℕ) (m : Module), w.modules[id]? = some m → m.records.Tiled := by
  refine h.forall_modules (fun m _ hrecords ↦ ?_) fun m after hm hbecomes ↦ ?_
  · rw [hrecords]
    exact RecordTable.tiled_empty m.name
  · rcases hbecomes.records with heq | haltered
    · rw [heq]
      exact hm
    · exact hm.altered haltered

theorem Follows.frozen (h : Follows w v) (hat : w.modules[id]? = some m) (hclosed : m.records.closed) :
    ∃ m', v.modules[id]? = some m' ∧ m.records.Frozen m'.records :=
  h.exists_module (P := fun m' ↦ m.records.Frozen m'.records)
    (fun _ _ hfrozen hbecomes ↦ hfrozen.trans (hbecomes.frozen hfrozen.closed)) hat (.refl hclosed)

theorem Follows.carried (h : Follows w v) (hat : w.modules[id]? = some m) (htiled : m.records.Tiled) {kind : UInt32}
    {a : Attachment Value} (ha : a ∈ m.records.attachedTo kind) :
    ∃ m' r events, v.modules[id]? = some m' ∧ m'.records.create kind = .ok (r, events) ∧
      r.get? a.key = some a.part.value := by
  have hkept (m after : Module) (hm : m.records.Tiled ∧ a ∈ m.records.attachedTo kind) (hbecomes : m.Becomes after) :
      after.records.Tiled ∧ a ∈ after.records.attachedTo kind := by
    rcases hbecomes.records with heq | haltered
    · rw [heq]
      exact hm
    · exact ⟨hm.1.altered haltered, (haltered.attachedTo_prefix kind).mem hm.2⟩
  obtain ⟨m', hat', htiled', ha'⟩ := h.exists_module hkept hat ⟨htiled, ha⟩
  obtain ⟨l, hl, hmem⟩ := RecordTable.exists_layout_of_mem ha'
  exact ⟨m', _, _, hat', RecordTable.create_of_some hl, Record.get?_blank (htiled' kind l hl) hmem kind⟩

/-! ### Passes that fail -/

def isSealed (w : World) (id : ℕ) : Bool := w.modules[id]?.any (·.records.closed)

theorem isSealed_moved (hat : w.modules[id]? = some m) (target : ModuleState) (j : ℕ) :
    (w.moved id m target).isSealed j = w.isSealed j := by
  rw [isSealed, isSealed]
  by_cases hj : id = j
  · subst hj
    rw [getElem?_moved hat, hat]
    rfl
  · exact congrArg (Option.any _) (List.getElem?_set_ne hj)

/-- A module is sealed by what the hook of some module does while an initialize pass is at that one. -/
def SealedByHook (run : ScriptRunner) (ids : List ℕ) (w : World) (id : ℕ) : Prop :=
  ∃ front j rest v u, ids = front ++ j :: rest ∧ HasInitialized run w front v ∧
    moveModule j .initialized v = (.ok (), u) ∧ u.isSealed id = false ∧ (runHook run .onInit j none u).2.isSealed id

variable {run : ScriptRunner} {ids : List ℕ}

theorem sealed_initializeOne {j : ℕ} (h : (initializeOne run j w).2.isSealed id) :
    w.isSealed id ∨ ∃ u, moveModule j .initialized w = (.ok (), u) ∧ u.isSealed id = false ∧
      (runHook run .onInit j none u).2.isSealed id := by
  cases hbefore : w.isSealed id with
  | true => exact .inl rfl
  | false =>
    refine .inr ?_
    rcases moveModule_cases j .initialized w with ⟨hnone, hmove⟩ | ⟨m, hat, hcan, hmove⟩ | ⟨e, hmove⟩ <;>
      simp only [initializeOne, hmove, runEntry_snd] at h
    · exact ⟨w, hmove, hbefore, h⟩
    · exact ⟨_, hmove, (isSealed_moved hat .initialized id).trans hbefore, h⟩
    · rw [hbefore] at h
      cases h

theorem sealed_each (h : (each (initializeOne run) ids w).2.isSealed id) :
    w.isSealed id ∨ SealedByHook run ids w id := by
  induction ids generalizing w with
  | nil => exact .inl h
  | cons j ids ih =>
    have hfirst : (initializeOne run j w).2.isSealed id → w.isSealed id ∨ SealedByHook run (j :: ids) w id := by
      intro hone
      refine (sealed_initializeOne hone).imp_right ?_
      rintro ⟨u, hmove, hopen, hsealed⟩
      exact ⟨[], j, ids, w, u, rfl, rfl, hmove, hopen, hsealed⟩
    rcases hone : initializeOne run j w with ⟨e | _, v⟩
    · simp only [each, hone] at h
      rw [hone] at hfirst
      exact hfirst h
    · simp only [each, hone] at h
      rw [hone] at hfirst
      rcases ih h with hbefore | ⟨front, k, rest, x, u, rfl, hfront, hmove, hopen, hsealed⟩
      · exact hfirst hbefore
      · refine .inr ⟨j :: front, k, rest, x, u, rfl, ?_, hmove, hopen, hsealed⟩
        rw [HasInitialized, each, hone]
        exact hfront

/-- Modules that run or have run are closed to new layouts and attachments, as hooks find them too. Whatever follows, a
closed module keeps its layouts, so that records come out as before, and what has been attached is there in records
for good. A pass that fails before all hooks have initialized their modules closes none. -/
theorem layouts_frozen :
    (∀ w, Follows fresh w → ∀ (id : ℕ) (m : Module), w.modules[id]? = some m → m.Settled) ∧
    (∀ (w v : World) (id : ℕ) (m : Module), Follows w v → w.modules[id]? = some m → m.records.closed →
      ∃ m', v.modules[id]? = some m' ∧ m.records.Frozen m'.records ∧
        ∀ kind, m'.records.create kind = m.records.create kind) ∧
    (∀ (w : World) (id : ℕ) (m : Module) (kind : UInt32), m.records.closed →
      (∀ base, ∃ e, (ModuleOp.setLayout kind base).perform w id m = (.failed e, w)) ∧
      (∀ requester name part, ∃ e, (ModuleOp.attach kind requester name part).perform w id m = (.failed e, w)) ∧
      ∀ script records, m.records.addHook kind script = .ok records → m.records.Frozen records) ∧
    (∀ (w v : World) (id : ℕ) (m : Module) (kind : UInt32) (requester name : String) (part : Part Value)
      (key : RecordKey ValueType) (records : RecordTable Value BlockScript), Follows fresh w →
      w.modules[id]? = some m → m.records.attach kind requester part = .ok (key, records) →
      Follows ((ModuleOp.attach kind requester name part).perform w id m).2 v →
      ∃ m' r events, v.modules[id]? = some m' ∧ m'.records.create kind = .ok (r, events) ∧
        r.get? key = some part.value) ∧
    ∀ (run : ScriptRunner) (r : ℕ) (w v : World) (e : Error),
      each (initializeOne (atWork run r w)) (w.registry r).modules w = (.error e, v) →
      initializeAll run r w = (.error e, v) ∧
        ∀ id, v.isSealed id → w.isSealed id ∨ SealedByHook (atWork run r w) (w.registry r).modules w id := by
  refine ⟨fun w h ↦ h.settled, fun w v id m h hat hclosed ↦ ?_,
    fun w id m kind hclosed ↦ ⟨fun base ↦ ?_, ?_, ?_⟩, ?_, ?_⟩
  · obtain ⟨m', hat', hfrozen⟩ := h.frozen hat hclosed
    exact ⟨m', hat', hfrozen, hfrozen.create⟩
  · obtain ⟨e, hset⟩ := RecordTable.setLayout_of_closed hclosed kind base
    exact ⟨e, by rw [ModuleOp.perform, hset]; rfl⟩
  · intro requester name part
    obtain ⟨e, hattach⟩ := RecordTable.attach_of_closed hclosed kind requester part
    exact ⟨e, by rw [ModuleOp.perform, hattach]⟩
  · exact fun _ _ hadd ↦ (RecordTable.altered_addHook hadd).frozen hclosed
  · intro w v id m kind requester name part key records h hat hattach hlater
    have hnow : ((ModuleOp.attach kind requester name part).perform w id m).2.modules[id]? =
        some { m with records } := by
      rw [ModuleOp.perform, hattach]
      exact List.getElem?_set_self (List.getElem?_eq_some_iff.1 hat).1
    have htiled := (h.tiled id m hat).altered (RecordTable.altered_attach hattach)
    obtain ⟨l, hl, -, -, rfl, rfl⟩ := RecordTable.exists_of_attach hattach
    refine hlater.carried (a := ⟨l.size, requester, part⟩) hnow htiled ?_
    rw [RecordTable.attachedTo_put (RecordTable.lt_of_layout? hl), if_pos rfl]
    exact List.mem_append_right _ List.mem_cons_self
  · intro run r w v e hfailed
    refine ⟨?_, fun id hsealed ↦ sealed_each (by rwa [hfailed])⟩
    rw [initializeAll]
    simp only [show each (initializeOne (run.during ⟨[r], (w.registry r).modules⟩)) (w.registry r).modules w =
      (.error e, v) from hfailed]

def character : List Operation :=
  [.create "c" "character" .unit []
      [(.onInit, [⟨.module .self (.attach 0 "mail" "unread" ⟨.truth true, none⟩), false, none⟩])],
    .module (.aliased "c") (.setLayout 0 ⟨.text "Arden", none⟩), .register "c"]

theorem layouts_frozen_sample :
    let w := (story character fresh).2
    let v := (story [.registry .initializeAll] w).2
    let u := (story [.module (.aliased "c") (.setLayout 0 ⟨.unit, none⟩), .registry .closeAll] v).2
    let x := (story (twoModules [⟨.fail (.io .notFound), false, none⟩]) fresh).2
    let run := runScript (execute 1)
    (∃ m m', v.modules[0]? = some m ∧ m.state = .running ∧ m.records.closed ∧ u.modules[0]? = some m' ∧
      m.records.Frozen m'.records ∧
        ∃ e, (ModuleOp.setLayout 0 ⟨.unit, none⟩).perform u 0 m' = (.failed e, u)) ∧
    (∃ m m' r events, w.modules[0]? = some m ∧
      (story [.registry .initializeAll]
        ((ModuleOp.attach 0 "buff" "stacks" ⟨.unit, none⟩).perform w 0 m).2).2.modules[0]? = some m' ∧
      m'.records.create 0 = .ok (r, events) ∧ r.get? ⟨24, .unit⟩ = some .unit) ∧
    ∃ e y, initializeAll run 0 x = (.error e, y) ∧
      ∀ id, y.isSealed id → x.isSealed id ∨ SealedByHook (atWork run 0 x) (x.registry 0).modules x id := by
  intro w v u x run
  have hlayouts := layouts_frozen
  obtain ⟨hsettled, hfrozen, hrefused, hcarried, hpass⟩ := hlayouts
  have hw : Follows fresh w := follows_story _ _
  have hv : Follows fresh v := hw.trans (follows_story _ _)
  refine ⟨?_, ?_, ?_⟩
  · obtain ⟨m, hat, hstate⟩ := state?_eq_some.1 (show v.state? 0 = some .running by decide)
    have hclosed := hsettled v hv 0 m hat (.inl hstate)
    obtain ⟨m', hat', hkept, -⟩ := hfrozen v u 0 m (follows_story _ _) hat hclosed
    exact ⟨m, m', hat, hstate, hclosed, hat', hkept, (hrefused u 0 m' 0 hkept.closed).1 _⟩
  · have hsize : w.modules[0]?.bind (fun m ↦ (m.records.layout? 0).map (·.size)) = some 24 := by decide
    have hopen : w.modules[0]?.any (fun m ↦ (m.records.attach 0 "buff" ⟨.unit, none⟩).toBool) := by decide
    obtain ⟨m, hat, hm⟩ := Option.bind_eq_some_iff.1 hsize
    obtain ⟨l, hl, hl'⟩ := Option.map_eq_some_iff.1 hm
    rw [hat, Option.any_some] at hopen
    rcases m.records.attach_cases 0 "buff" ⟨.unit, none⟩ with ⟨l', hsame, -, -, hattach⟩ | ⟨e, hattach, -⟩
    · rw [hl] at hsame
      cases hsame
      obtain ⟨m', r, events, hat', hcreate, hread⟩ := hcarried w _ 0 m 0 "buff" "stacks" ⟨.unit, none⟩ _ _ hw hat
        hattach (follows_story [.registry .initializeAll] _)
      rw [hl'] at hread
      exact ⟨m, m', r, events, hat, hat', hcreate, hread⟩
    · rw [hattach] at hopen
      cases hopen
  · rcases heach : each (initializeOne (atWork run 0 x)) (x.registry 0).modules x with ⟨e | _, y⟩
    · exact ⟨e, y, hpass run 0 x y e heach⟩
    · have hfails : (each (initializeOne (atWork run 0 x)) (x.registry 0).modules x).1.toBool = false := by decide
      rw [heach] at hfails
      cases hfails

end World
end GameHost
