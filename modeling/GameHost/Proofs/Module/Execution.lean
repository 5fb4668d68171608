import GameHost.Proofs.Module.Changes

namespace GameHost

/-! ### What block hooks note -/

def BlockAction.Keeps {σ : Type} (P : σ → Prop) (act : BlockAction σ) : Prop :=
  ∀ s d, P s → P (act s d).2.1

namespace Document

variable {σ : Type} {P : σ → Prop} {hooks : List (BlockHook σ)}

theorem keeps_writeEntry (key value : String) : (writeEntry key value).Keeps P := by
  intro s d hs
  simp only [writeEntry]
  split <;> exact hs

theorem keeps_andThen {first second : BlockAction σ} (hfirst : first.Keeps P) (hsecond : second.Keeps P) :
    (andThen first second).Keeps P := by
  intro s d hs
  have hkept := hfirst s d hs
  simp only [andThen]
  split
  · next hok =>
    rw [hok] at hkept
    exact hsecond _ _ hkept
  · exact hkept

theorem keeps_enumWrite (hhooks : ∀ h ∈ hooks, h.write.Keeps P) : (enumWrite hooks).Keeps P := by
  have hblocks : (writeBlocks hooks).Keeps P := by
    induction hooks with
    | nil => exact keeps_writeEntry _ _
    | cons h hs ih =>
      have hopen : (openBlock h.module).Keeps P := fun s d hs ↦ keeps_writeEntry _ _ s _ hs
      refine keeps_andThen (keeps_andThen hopen (hhooks h List.mem_cons_self)) (ih ?_)
      intro h' hh'
      exact hhooks h' (List.mem_cons_of_mem _ hh')
  intro s d hs
  exact hblocks s _ hs

theorem keeps_readBlocks (hhooks : ∀ h ∈ hooks, h.read.Keeps P) {fuel i : Nat} {s after : σ}
    {d last : Document} {outcome : Except Error Unit}
    (h : readBlocks hooks fuel i s d = some (outcome, after, last)) (hs : P s) : P after := by
  induction fuel generalizing i s d with
  | zero => cases h
  | succ fuel ih =>
    simp only [readBlocks] at h
    split at h
    · cases h
      exact hs
    split at h
    · split at h
      · exact ih h hs
      · next hook hfind =>
        have hkept := hhooks hook (List.mem_of_find?_eq_some hfind) s { d with cursor := some i } hs
        split at h
        · next hok =>
          rw [hok] at hkept
          exact ih h hkept
        · rw [Option.some.inj h] at hkept
          exact hkept
    split at h
    · cases h
      exact hs
    · exact ih h hs

end Document

def Noted.IsQuiet (s : Noted) : Prop := ∀ n ∈ s.2, n.isLife = false

theorem Outcome.isLife_notes (outcome : Outcome) (label : Option String) :
    ∀ n ∈ label.toList.flatMap outcome.notes, n.isLife = false := by
  intro n hn
  obtain ⟨text, -, hn⟩ := List.mem_flatMap.1 hn
  cases outcome <;> simp only [notes, List.mem_singleton, List.not_mem_nil] at hn
  all_goals
    rw [hn]
    rfl

namespace BlockOp

theorem isQuiet_append {r : Record Value} {new notes : List Note} (hnew : ∀ n ∈ new, n.isLife = false)
    (h : Noted.IsQuiet (r, notes)) (r' : Record Value) : Noted.IsQuiet (r', new ++ notes) := by
  intro n hn
  rcases List.mem_append.1 hn with hn | hn
  · exact hnew n hn
  · exact h n hn

theorem isQuiet_perform (w : World) (op : BlockOp) (s : Noted) (d : Document) (h : s.IsQuiet) :
    (op.perform w s d).2.1.IsQuiet := by
  obtain ⟨r, notes⟩ := s
  cases op with
  | document op label => exact isQuiet_append (Outcome.isLife_notes _ label) h r
  | replace source label =>
    simp only [perform]
    split <;> exact isQuiet_append (Outcome.isLife_notes _ label) h r
  | log text =>
    have hsaid : ∀ n ∈ [Note.said text], n.isLife = false := by simp [Note.isLife]
    exact isQuiet_append hsaid h r
  | fail e => exact h
  | writeAttached entry key =>
    simp only [perform]
    split <;> exact h
  | writeBase entry type => exact h
  | readAll tag limit targets =>
    refine isQuiet_append ?_ h _
    intro n hn
    obtain ⟨entry, -, rfl⟩ := List.mem_map.1 (List.mem_reverse.1 hn)
    rfl

theorem isQuiet_performAll (w : World) (ops : List BlockOp) :
    (performAll w ops).Keeps Noted.IsQuiet := by
  induction ops with
  | nil => exact fun _ _ hs ↦ hs
  | cons op ops ih =>
    intro s d hs
    have hfirst := isQuiet_perform w op s d hs
    rw [performAll]
    split
    · next hfailed =>
      rw [hfailed] at hfirst
      exact hfirst
    · next hdone =>
      rw [hdone] at hfirst
      exact ih _ _ hfirst

end BlockOp

namespace World

variable {w : World}

theorem changes_onBlocks {m : Module} {kind : UInt32} {record document : String}
    {act : List (BlockHook Noted) → Noted → Document → Option (Except Error Unit × Noted × Document)}
    (hact : ∀ hooks s d outcome after last,
      (∀ h ∈ hooks, h.read.Keeps Noted.IsQuiet ∧ h.write.Keeps Noted.IsQuiet) → s.IsQuiet →
      act hooks s d = some (outcome, after, last) → after.IsQuiet) :
    Changes w (ModuleOp.onBlocks w m kind record document act).2 := by
  simp only [ModuleOp.onBlocks]
  split
  · split
    · exact .refl w
    · next layout _ =>
      split
      · exact .refl w
      · next r d _ _ _ outcome after notes last hran =>
        have hquiet : Noted.IsQuiet (after, notes) := by
          refine hact _ _ _ _ _ _ ?_ ?_ hran
          · intro h hh
            obtain ⟨script, -, rfl⟩ := List.mem_map.1 hh
            exact ⟨BlockOp.isQuiet_performAll w _, BlockOp.isQuiet_performAll w _⟩
          · intro n hn
            cases hn
        exact .single (.aside rfl rfl ⟨notes, rfl, hquiet⟩)
  · exact .refl w

theorem changes_change {id : Nat} {m : Module} (hat : w.modules[id]? = some m)
    {result : Except Error (RecordTable Value BlockScript)}
    (h : ∀ records, result = .ok records → m.Tended { m with records }) :
    Changes w (ModuleOp.change w id m result).2 := by
  cases result with
  | error e => exact .refl w
  | ok records => exact .single (.tended hat (h records rfl))

theorem changes_moduleOp {id : Nat} {m : Module} (hat : w.modules[id]? = some m) (op : ModuleOp) :
    Changes w (op.perform w id m).2 := by
  cases op with
  | setLayout kind base => exact changes_change hat fun _ h ↦ .laidOut h
  | addBlocks kind script => exact changes_change hat fun _ h ↦ .hooked h
  | instanceSet value =>
    simp only [ModuleOp.perform]
    split
    · exact .single (.tended hat (.valued value))
    · exact .refl w
  | attach kind requester key part =>
    simp only [ModuleOp.perform]
    split
    · next hattach => exact .trans (.single (.tended hat (.attached hattach))) (.silent rfl rfl rfl)
    · exact .refl w
  | createRecord kind record =>
    simp only [ModuleOp.perform]
    split
    · next r events _ =>
      refine .trans (v := w.setRecord record r) (.silent rfl rfl rfl) (.noteAll _ ?_)
      simp [Note.isLife]
    · exact .refl w
  | destroyRecord record =>
    simp only [ModuleOp.perform]
    split
    · exact .refl w
    · refine .trans (v := { w with records := w.records.filter (·.1 != record) }) (.silent rfl rfl rfl)
        (.noteAll _ ?_)
      simp [Note.isLife]
  | writeBlocks kind record document =>
    refine changes_onBlocks fun hooks s d outcome after last hhooks hs h ↦ ?_
    have hkept := Document.keeps_enumWrite (fun hook hh ↦ (hhooks hook hh).2) s d hs
    rw [Option.some.inj h] at hkept
    exact hkept
  | readBlocks kind record document =>
    refine changes_onBlocks fun hooks s d outcome after last hhooks hs h ↦ ?_
    exact Document.keeps_readBlocks (fun hook hh ↦ (hhooks hook hh).1) h hs
  | _ => exact .refl w

theorem changes_onTarget {c : Context} {act : Nat → Module → Outcome × World} {target : Target}
    (hact : ∀ id m, w.modules[id]? = some m → Changes w (act id m).2) :
    Changes w (onTarget c w act target).2 := by
  have hgo (id : Option Nat) : Changes w (onTarget.go w act id).2 := by
    simp only [onTarget.go]
    split
    · exact .refl w
    · split
      · next hat => exact hact _ _ hat
      · exact .refl w
  cases target with
  | registered name =>
    simp only [onTarget, find]
    cases hfound : ((w.registry (registryOf c w)).get? name).bind fun id ↦ w.modules[id]?.map (id, ·) with
    | none => exact .refl w
    | some found =>
      obtain ⟨id, -, hfound⟩ := Option.bind_eq_some_iff.1 hfound
      obtain ⟨m, hat, rfl⟩ := Option.map_eq_some_iff.1 hfound
      exact hact id m hat
  | aliased name => exact hgo _
  | self => exact hgo _

variable {run : ScriptRunner} (hrun : run.Changing)

include hrun

theorem changes_handle (h : Handler Operation) (event : Event) (w : World) :
    Changes w (handle run h event w).2.2 := by
  cases event with
  | word n => exact .refl w
  | tour value visits =>
    have hscript := hrun .outside h.script w
    simp only [handle]
    split
    · next hok =>
      rw [hok] at hscript
      exact hscript
    · next hfailed =>
      rw [hfailed] at hscript
      exact hscript.trans (.note _ rfl)

theorem changes_ask (type : EventType) (s : Subscriber EventType (Handler Operation)) (event : Event)
    (w : World) : Changes w (s.ask (handle run) type event w).2.2 := by
  rw [Subscriber.ask]
  split
  · exact changes_handle hrun _ _ w
  · exact .refl w

theorem changes_askAll (type : EventType) (subscribers : List (Subscriber EventType (Handler Operation)))
    (event : Event) (w : World) :
    Changes w (Subscriber.askAll (handle run) type subscribers event w).2.2 := by
  induction subscribers generalizing event w with
  | nil => exact .refl w
  | cons s rest ih =>
    have hfirst := changes_ask hrun type s event w
    rw [Subscriber.askAll]
    split
    · next hagreed =>
      rw [hagreed] at hfirst
      exact hfirst.trans (ih _ _)
    · exact hfirst

theorem changes_enumerate (m : Module) (id : UInt32) (event : Event) (index : Option Nat) (w : World) :
    Changes w (enumerate run m id event index w).2 := by
  cases index with
  | none =>
    simp only [enumerate, CallbackTable.enumerate]
    split
    · exact changes_askAll hrun _ _ _ w
    · exact .refl w
  | some i =>
    simp only [enumerate, CallbackTable.enumerateAt]
    split
    · exact changes_ask hrun _ _ _ w
    · exact .refl w

theorem changes_registerAlias (c : Context) (handle : String) (w : World) :
    Changes w (registerAlias run c handle w).2 := by
  simp only [registerAlias]
  split
  · exact .refl w
  · next id _ =>
    have hregistered := changes_register hrun (registryOf c w) id (forget [handle] w)
    refine .trans (v := forget [handle] w) (.silent rfl rfl rfl) (hregistered.trans ?_)
    cases register run (registryOf c w) id (forget [handle] w) with
    | mk result v => cases result <;> exact .silent rfl rfl rfl

theorem changes_bootAliases (c : Context) (aliases : List String) (w : World) :
    Changes w (bootAliases run c aliases w).2 := by
  simp only [bootAliases]
  split
  · exact .refl w
  · next ids _ =>
    have hbooted := changes_boot hrun ids (forget aliases w)
    refine .trans (v := forget aliases w) (.silent rfl rfl rfl) (hbooted.trans ?_)
    cases boot run ids (forget aliases w) with
    | mk result v => cases result <;> exact .silent rfl rfl rfl

theorem changes_performRegistry (c : Context) (w : World) (op : RegistryOp) :
    Changes w (performRegistry run c w op).2 := by
  cases op with
  | renew => exact .trans (.single .opened) (.silent rfl rfl rfl)
  | initializeAll => exact changes_initializeAll hrun _ w
  | closeAll => exact changes_leaveAll hrun rfl _ w
  | shutdownAll => exact changes_leaveAll hrun rfl _ w
  | destroyAll => exact changes_destroyAll _ w
  | get name =>
    simp only [performRegistry]
    split <;> exact .refl w
  | _ => exact .refl w

theorem changes_perform (c : Context) (w : World) (op : Operation) : Changes w (perform run c w op).2 := by
  have hduring (busy : Busy) := changing_during hrun busy
  cases op with
  | log text => exact .note w rfl
  | fail e => exact .refl w
  | store name source =>
    simp only [perform]
    split <;> exact .silent rfl rfl rfl
  | document name op =>
    simp only [perform]
    split <;> exact .silent rfl rfl rfl
  | record name op =>
    simp only [perform]
    split <;> exact .silent rfl rfl rfl
  | keyDebug key =>
    simp only [perform]
    split <;> exact .refl w
  | create handle name state deps hooks =>
    simp only [perform]
    split
    · exact .refl w
    · next hmade => exact .trans (.single (.made hmade)) (.silent rfl rfl rfl)
  | register handle => exact changes_registerAlias (hduring _) c handle w
  | boot aliases => exact changes_bootAliases (hduring _) c aliases w
  | registry op => exact changes_performRegistry (hduring _) c w op
  | module target op =>
    simp only [perform]
    split
    · exact changes_onTarget fun _ _ hat ↦ changes_moduleOp hat op
    · exact .refl w
  | subscribe target id name type handler =>
    refine changes_onTarget fun i m hat ↦ ?_
    split
    · next hadded => exact .single (.tended hat (.subscribed hadded))
    · exact .refl w
  | enumerate target id event index =>
    exact changes_onTarget fun _ _ _ ↦ changes_enumerate (changing_during (hduring _) _) _ _ _ _ w

omit hrun

theorem changing_runScript {execute : Executor} (hexecute : ∀ c op w, Changes w (execute c op w).2) :
    ScriptRunner.Changing (runScript execute) := by
  intro c script w
  induction script generalizing w with
  | nil => exact .refl w
  | cons step steps ih =>
    have hfirst := hexecute c step.op w
    rw [runScript]
    split
    · next hfailed =>
      rw [hfailed] at hfirst
      split
      · exact (hfirst.trans (.note _ rfl)).trans (ih _)
      · exact hfirst
    · next outcome _ _ hdone =>
      rw [hdone] at hfirst
      exact (hfirst.trans (.noteAll _ (Outcome.isLife_notes outcome step.label))).trans (ih _)

theorem changes_execute (depth : Nat) (c : Context) (op : Operation) (w : World) :
    Changes w (execute depth c op w).2 := by
  induction depth generalizing c op w with
  | zero => exact .refl w
  | succ depth ih => exact changes_perform (changing_runScript ih) c w op

end World
end GameHost
