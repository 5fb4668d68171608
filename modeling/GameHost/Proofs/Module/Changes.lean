import GameHost.Module.Run
import Mathlib.Logic.Relation

/-!
What can happen in a world, said once.

Whatever operations do, hooks within hooks included, they do in small changes (`Change`): modules are made
and tended, registries are opened, filled and emptied, and modules come to new states, where their hooks
start. Everything else is `aside`. `changes_execute` is the main statement. What holds of every change holds
of every run.
-/

namespace GameHost

def ModuleState.hook? : ModuleState → Option HookKind
  | created => none
  | registered => some .onRegister
  | initialized => some .onInit
  | running => none
  | closed => some .onClose
  | shutdown => some .onShutdown
  | destroyed => none

/-- Moves of modules, starts of hooks and what registries list, as opposed to all other notes. -/
def Note.isLife : Note → Bool
  | moved .. | started .. | enlisted .. | emptied .. => true
  | _ => false

namespace Module

variable (m : Module)

def has (hook : HookKind) : Bool := (m.hooks.lookup hook).isSome

/-- A module that comes to a state. One that runs has its records closed. -/
def arrive (target : ModuleState) : Module :=
  { m with
    state := target
    records := if target = .running then m.records.close else m.records }

/-- Work on a module that leaves its life alone. -/
inductive Tended (m : Module) : Module → Prop
  | valued (value : Value) : Tended m { m with instanceValue := value }
  | subscribed {id : UInt32} {s : Subscriber EventType (Handler Operation)}
      {callbacks : CallbackTable EventType (Handler Operation)} (h : m.callbacks.add id s = .ok callbacks) :
      Tended m { m with callbacks }
  | laidOut {kind : UInt32} {base : Part Value} {records : RecordTable Value BlockScript}
      (h : m.records.setLayout kind base = .ok records) : Tended m { m with records }
  | attached {kind : UInt32} {requester : String} {part : Part Value} {key : RecordKey ValueType}
      {records : RecordTable Value BlockScript} (h : m.records.attach kind requester part = .ok (key, records)) :
      Tended m { m with records }
  | hooked {kind : UInt32} {script : BlockScript} {records : RecordTable Value BlockScript}
      (h : m.records.addHook kind script = .ok records) : Tended m { m with records }

end Module

namespace World

def moved (w : World) (id : Nat) (m : Module) (target : ModuleState) : World :=
  (w.setModule id { m with state := target }).note (.moved id m.state target)

def enter (w : World) (id : Nat) (m : Module) (target : ModuleState) : World :=
  ((w.setModule id (m.arrive target)).note (.moved id m.state target)).noteAll
    ((target.hook?.filter m.has).toList.map fun hook ↦ .started hook id m.name)

inductive Change (w : World) : World → Prop
  | aside {next : World} (hmodules : next.modules = w.modules) (hregistries : next.registries = w.registries)
      (hnotes : ∃ notes, next.notes = notes ++ w.notes ∧ ∀ n ∈ notes, n.isLife = false) : Change w next
  | made {name : String} {state : ValueType} {deps : List String} {hooks : List (HookKind × Script)}
      {m : Module} (h : Module.create name state deps hooks = .ok m) :
      Change w { w with modules := w.modules ++ [m] }
  | tended {id : Nat} {m after : Module} (hat : w.modules[id]? = some m) (h : m.Tended after) :
      Change w (w.setModule id after)
  | opened : Change w { w with registries := w.registries ++ [.empty] }
  | enlisted {r id : Nat} {m : Module} (hat : w.modules[id]? = some m)
      (hnew : (w.registry r).has m.name = false) :
      Change w (w.enlist r id m.name)
  | entered {id : Nat} {m : Module} {target : ModuleState} (hat : w.modules[id]? = some m)
      (hmove : m.state.canMove target) : Change w (w.enter id m target)
  | emptied (r : Nat) : Change w ((w.setRegistry r .empty).note (.emptied r))

def Changes : World → World → Prop := Relation.ReflTransGen Change

end World

/-- Scripts do nothing but changes. -/
def ScriptRunner.Changing (run : ScriptRunner) : Prop :=
  ∀ c script w, World.Changes w (run c script w).2

namespace World

variable {w v : World}

namespace Changes

theorem refl (w : World) : Changes w w := Relation.ReflTransGen.refl

theorem trans {u : World} (h : Changes w v) (h' : Changes v u) : Changes w u :=
  Relation.ReflTransGen.trans h h'

theorem single (h : Change w v) : Changes w v := Relation.ReflTransGen.single h

theorem silent (hmodules : v.modules = w.modules) (hregistries : v.registries = w.registries)
    (hnotes : v.notes = w.notes) : Changes w v :=
  single (.aside hmodules hregistries ⟨[], hnotes, by simp⟩)

theorem note (w : World) {n : Note} (hn : n.isLife = false) : Changes w (w.note n) :=
  single (.aside rfl rfl ⟨[n], rfl, by simpa using hn⟩)

theorem noteAll (w : World) {ns : List Note} (hns : ∀ n ∈ ns, n.isLife = false) : Changes w (w.noteAll ns) :=
  single (.aside rfl rfl ⟨ns.reverse, rfl, by simpa using hns⟩)

end Changes

/-! ### Registries at work -/

section

variable {id : Nat} {m : Module} {target : ModuleState}

theorem moveModule_of_canMove (hat : w.modules[id]? = some m) (hmove : m.state.canMove target) :
    moveModule id target w = (.ok (), w.moved id m target) := by
  simp only [moveModule, hat, Module.move, hmove, if_true, moved]

theorem moveModule_of_not_canMove (hat : w.modules[id]? = some m) (hmove : ¬ m.state.canMove target) :
    moveModule id target w = (.error (.badMove m.name m.state target), w) := by
  simp only [moveModule, hat, Module.move, hmove]
  rfl

theorem moveModule_of_none (hat : w.modules[id]? = none) : moveModule id target w = (.ok (), w) := by
  simp only [moveModule, hat]

theorem moveModule_cases (id : Nat) (target : ModuleState) (w : World) :
    w.modules[id]? = none ∧ moveModule id target w = (.ok (), w) ∨
    (∃ m, w.modules[id]? = some m ∧ m.state.canMove target ∧
      moveModule id target w = (.ok (), w.moved id m target)) ∨
    ∃ e, moveModule id target w = (.error e, w) := by
  cases hat : w.modules[id]? with
  | none => exact .inl ⟨rfl, moveModule_of_none hat⟩
  | some m =>
    by_cases hmove : m.state.canMove target
    · exact .inr (.inl ⟨m, rfl, hmove, moveModule_of_canMove hat hmove⟩)
    · exact .inr (.inr ⟨_, moveModule_of_not_canMove hat hmove⟩)

theorem enter_of_filter_none (hhook : target.hook?.filter m.has = none) (hrunning : target ≠ .running) :
    w.enter id m target = w.moved id m target := by
  simp only [enter, hhook, Module.arrive, if_neg hrunning]
  rfl

theorem enter_of_filter_some {hook : HookKind} (hhook : target.hook?.filter m.has = some hook)
    (hrunning : target ≠ .running) :
    w.enter id m target = (w.moved id m target).note (.started hook id m.name) := by
  simp only [enter, hhook, Module.arrive, if_neg hrunning]
  rfl

theorem getElem?_moved (hat : w.modules[id]? = some m) :
    (w.moved id m target).modules[id]? = some { m with state := target } :=
  List.getElem?_set_self (List.getElem?_eq_some_iff.1 hat).1

theorem runHook_moved (run : ScriptRunner) (registry : Option Nat) {hook : HookKind}
    (hhook : target.hook? = some hook) (hat : w.modules[id]? = some m) :
    runHook run hook id registry (w.moved id m target) =
      match m.hooks.lookup hook with
      | none => (.ok (), w.enter id m target)
      | some script => run ⟨some id, registry, .nothing⟩ script (w.enter id m target) := by
  have hrunning : target ≠ .running := by
    rintro rfl
    cases hhook
  cases hscript : m.hooks.lookup hook with
  | none =>
    have hnone : target.hook?.filter m.has = none := by
      rw [hhook, Option.filter_some, Module.has, hscript]
      rfl
    simp only [runHook, getElem?_moved hat, hscript, enter_of_filter_none hnone hrunning]
  | some script =>
    have hsome : target.hook?.filter m.has = some hook := by
      rw [hhook, Option.filter_some, Module.has, hscript]
      rfl
    simp only [runHook, getElem?_moved hat, hscript, enter_of_filter_some hsome hrunning]

theorem changes_moveModule_destroyed (id : Nat) (w : World) :
    Changes w (moveModule id .destroyed w).2 := by
  rcases moveModule_cases id .destroyed w with ⟨-, hmove⟩ | ⟨m, hat, hcan, hmove⟩ | ⟨e, hmove⟩ <;> rw [hmove]
  · exact .refl w
  · rw [← enter_of_filter_none rfl (by decide)]
    exact .single (.entered hat hcan)
  · exact .refl w

end

theorem runEntry_snd (run : ScriptRunner) (hook : HookKind) (id : Nat) (registry : Option Nat) (w : World) :
    (runEntry run hook id registry w).2 = (runHook run hook id registry w).2 := by
  simp only [runEntry]
  split <;> simp_all

theorem changes_each {step : Nat → World → Except Error Unit × World}
    (hstep : ∀ id w, Changes w (step id w).2) (ids : List Nat) (w : World) : Changes w (each step ids w).2 := by
  induction ids generalizing w with
  | nil => exact .refl w
  | cons id ids ih =>
    have hfirst := hstep id w
    rw [each]
    split
    · next v hok =>
      rw [hok] at hfirst
      exact hfirst.trans (ih v)
    · exact hfirst

theorem startOne_of_canMove {id : Nat} {m : Module} (hat : w.modules[id]? = some m)
    (hcan : m.state.canMove .running) : startOne id w = (.ok (), w.enter id m .running) := by
  have hset : (w.modules.set id { m with state := .running }).modify id
      (fun m ↦ { m with records := m.records.close }) = w.modules.set id (m.arrive .running) := by
    apply List.ext_getElem?
    intro j
    rw [List.getElem?_modify, List.getElem?_set, List.getElem?_set]
    by_cases hj : id = j <;> simp [hj, Module.arrive]
  simp only [startOne, moveModule_of_canMove hat hcan, moved, setModule, note, hset]
  rfl

theorem changes_startOne (id : Nat) (w : World) : Changes w (startOne id w).2 := by
  rcases moveModule_cases id .running w with ⟨hnone, hmove⟩ | ⟨m, hat, hcan, -⟩ | ⟨e, hmove⟩
  · simp only [startOne, hmove]
    exact .silent (List.modify_eq_self (List.getElem?_eq_none_iff.1 hnone)) rfl rfl
  · rw [startOne_of_canMove hat hcan]
    exact .single (.entered hat hcan)
  · simp only [startOne, hmove]
    exact .refl w

theorem changes_destroyAll (r : Nat) (w : World) : Changes w (destroyAll r w) := by
  refine .trans ?_ (.single (.emptied r))
  generalize (w.registry r).modules.reverse = ids
  induction ids generalizing w with
  | nil => exact .refl w
  | cons id ids ih => exact (changes_moveModule_destroyed id w).trans (ih _)

variable {run : ScriptRunner} (hrun : run.Changing)

include hrun

theorem changing_during (busy : Busy) : (run.during busy).Changing := fun _ script w ↦ hrun _ script w

theorem changes_runHook_moved {id : Nat} {m : Module} {target : ModuleState} {hook : HookKind}
    (registry : Option Nat) (hhook : target.hook? = some hook) (hat : w.modules[id]? = some m)
    (hcan : m.state.canMove target) : Changes w (runHook run hook id registry (w.moved id m target)).2 := by
  rw [runHook_moved run registry hhook hat]
  cases m.hooks.lookup hook with
  | none => exact .single (.entered hat hcan)
  | some script => exact .trans (.single (.entered hat hcan)) (hrun _ script _)

theorem changes_register (r id : Nat) (w : World) : Changes w (register run r id w).2 := by
  cases hat : w.modules[id]? with
  | none =>
    simp only [register, hat]
    exact .refl w
  | some m =>
    cases hnew : (w.registry r).has m.name with
    | true =>
      simp only [register, hat, hnew, if_true]
      exact .refl w
    | false =>
      simp only [register, hat, hnew, Bool.false_eq_true, if_false]
      have hlisted : (w.enlist r id m.name).modules[id]? = some m := hat
      refine .trans (.single (.enlisted hat hnew)) ?_
      by_cases hcan : m.state.canMove .registered
      · rw [moveModule_of_canMove hlisted hcan, runEntry_snd]
        exact changes_runHook_moved (changing_during hrun _) _ rfl hlisted hcan
      · rw [moveModule_of_not_canMove hlisted hcan]
        exact .refl _

theorem changes_initializeOne (id : Nat) (w : World) : Changes w (initializeOne run id w).2 := by
  rcases moveModule_cases id .initialized w with ⟨hnone, hmove⟩ | ⟨m, hat, hcan, hmove⟩ | ⟨e, hmove⟩ <;>
    simp only [initializeOne, hmove, runEntry_snd]
  · simp only [runHook, hnone]
    exact .refl w
  · exact changes_runHook_moved hrun none rfl hat hcan
  · exact .refl w

theorem changes_initializeAll (r : Nat) (w : World) : Changes w (initializeAll run r w).2 := by
  have hfirst := changes_each (changes_initializeOne (changing_during hrun ⟨[r], (w.registry r).modules⟩))
    (w.registry r).modules w
  simp only [initializeAll]
  split
  · next v hok =>
    rw [hok] at hfirst
    exact hfirst.trans (changes_each changes_startOne _ v)
  · exact hfirst

theorem changes_leaveOne {target : ModuleState} {hook : HookKind} (hhook : target.hook? = some hook)
    (w : World) (id : Nat) : Changes w (leaveOne run target hook w id) := by
  rcases moveModule_cases id target w with ⟨hnone, hmove⟩ | ⟨m, hat, hcan, hmove⟩ | ⟨e, hmove⟩ <;>
    simp only [leaveOne, hmove, runExit]
  · simp only [runHook, hnone]
    exact .refl w
  · have hran := changes_runHook_moved hrun none hhook hat hcan
    split
    · next hok =>
      rw [hok] at hran
      exact hran
    · next hfailed =>
      rw [hfailed] at hran
      exact hran.trans (.note _ rfl)
  · exact .refl w

theorem changes_leaveAll {target : ModuleState} {hook : HookKind} (hhook : target.hook? = some hook)
    (r : Nat) (w : World) : Changes w (leaveAll run target hook r w) := by
  have hduring := changing_during hrun ⟨[r], (w.registry r).modules⟩
  simp only [leaveAll]
  generalize run.during ⟨[r], (w.registry r).modules⟩ = run at hduring
  generalize (w.registry r).modules.reverse = ids
  clear hrun
  induction ids generalizing w with
  | nil => exact .refl w
  | cons id ids ih => exact (changes_leaveOne hduring hhook w id).trans (ih _)

theorem changes_boot (ids : List Nat) (w : World) : Changes w (boot run ids w).2 := by
  simp only [boot]
  split
  · exact .refl w
  · next ordered _ =>
    have hregistered := changes_each (changes_register hrun w.registries.length) (ordered.map (·.1))
      { w with registries := w.registries ++ [.empty] }
    refine .trans (.single .opened) ?_
    split
    · next hfailed =>
      rw [hfailed] at hregistered
      exact hregistered
    · next v hok =>
      rw [hok] at hregistered
      refine hregistered.trans ?_
      have hinitialized := changes_initializeAll hrun w.registries.length v
      split <;> simp_all

end World
end GameHost
