import GameHost.Module.Order
import GameHost.Module.World

/-!
Registries take modules through their lives: forward on the way in, in reverse on the way out.

How a script runs is left open, so a hook may do anything to the world, the registry that is at work
included. A pass goes over the modules that were registered when it began. While a registry is at
work, scripts are told which modules it has in hand.
-/

namespace GameHost

/-- The registries that are at work, and the modules that they or others have in hand. -/
structure Busy where
  registries : List Nat
  modules : List Nat
  deriving DecidableEq, Repr

def Busy.nothing : Busy := ⟨[], []⟩

def Busy.add (a b : Busy) : Busy := ⟨a.registries ++ b.registries, a.modules ++ b.modules⟩

/-- Where a script runs: in a hook of a module, with the registry that the hook was given, and while
others are busy. -/
structure Context where
  self : Option Nat
  registry : Option Nat
  busy : Busy
  deriving DecidableEq, Repr

def Context.outside : Context := ⟨none, none, .nothing⟩

abbrev ScriptRunner := Context → Script → World → Except Error Unit × World

/-- Runs scripts while `busy` holds besides. -/
def ScriptRunner.during (run : ScriptRunner) (busy : Busy) : ScriptRunner :=
  fun c ↦ run { c with busy := busy.add c.busy }

namespace World

variable (run : ScriptRunner)

def moveModule (id : Nat) (target : ModuleState) (w : World) : Except Error Unit × World :=
  match w.modules[id]? with
  | none => (.ok (), w)
  | some m =>
    match m.move target with
    | .ok moved => (.ok (), (w.setModule id moved).note (.moved id m.state target))
    | .error e => (.error e, w)

def runHook (hook : HookKind) (id : Nat) (registry : Option Nat) (w : World) :
    Except Error Unit × World :=
  match w.modules[id]? with
  | none => (.ok (), w)
  | some m =>
    match m.hooks.lookup hook with
    | none => (.ok (), w)
    | some script =>
      run ⟨some id, registry, .nothing⟩ script (w.note (.started hook id m.name))

/-- Runs a hook that may fail the pass. -/
def runEntry (hook : HookKind) (id : Nat) (registry : Option Nat) (w : World) :
    Except Error Unit × World :=
  match w.modules[id]?, runHook run hook id registry w with
  | some m, (.error e, after) => (.error (m.blame hook e), after)
  | _, result => result

/-- Runs a hook whose error is only noted. -/
def runExit (hook : HookKind) (id : Nat) (w : World) : World :=
  match runHook run hook id none w with
  | (.ok _, w) => w
  | (.error e, w) => w.note (.hookError hook e)

def enlist (r id : Nat) (name : String) (w : World) : World :=
  (w.setRegistry r ((w.registry r).push name id)).note (.enlisted r id)

/-- Adds a module to a registry and runs its hook. If the hook fails, the module stays. -/
def register (r id : Nat) (w : World) : Except Error Unit × World :=
  match w.modules[id]? with
  | none => (.ok (), w)
  | some m =>
    if (w.registry r).has m.name then (.error (.duplicateModule m.name), w)
    else
      match moveModule id .registered (enlist r id m.name w) with
      | (.ok _, w) => runEntry (run.during ⟨[r], [id]⟩) .onRegister id (some r) w
      | stopped => stopped

def each (step : Nat → World → Except Error Unit × World) :
    List Nat → World → Except Error Unit × World
  | [], w => (.ok (), w)
  | id :: ids, w =>
    match step id w with
    | (.ok _, w) => each step ids w
    | stopped => stopped

def initializeOne (id : Nat) (w : World) : Except Error Unit × World :=
  match moveModule id .initialized w with
  | (.ok _, w) => runEntry run .onInit id none w
  | stopped => stopped

/-- A running module has its records closed to new layouts and attachments. -/
def startOne (id : Nat) (w : World) : Except Error Unit × World :=
  match moveModule id .running w with
  | (.ok _, w) =>
    (.ok (), { w with modules := w.modules.modify id fun m ↦ { m with records := m.records.close } })
  | stopped => stopped

def initializeAll (r : Nat) (w : World) : Except Error Unit × World :=
  let ids := (w.registry r).modules
  match each (initializeOne (run.during ⟨[r], ids⟩)) ids w with
  | (.ok _, w) => each startOne ids w
  | stopped => stopped

/-- Moves a module on and runs its hook; a module that cannot move is passed over. -/
def leaveOne (target : ModuleState) (hook : HookKind) (w : World) (id : Nat) : World :=
  match moveModule id target w with
  | (.ok _, w) => runExit run hook id w
  | (.error _, w) => w

def leaveAll (target : ModuleState) (hook : HookKind) (r : Nat) (w : World) : World :=
  let ids := (w.registry r).modules
  ids.reverse.foldl (leaveOne (run.during ⟨[r], ids⟩) target hook) w

def closeAll : Nat → World → World := leaveAll run .closed .onClose

def shutdownAll : Nat → World → World := leaveAll run .shutdown .onShutdown

def destroyAll (r : Nat) (w : World) : World :=
  let ended := (w.registry r).modules.reverse.foldl (fun w id ↦ (moveModule id .destroyed w).2) w
  (ended.setRegistry r .empty).note (.emptied r)

/-- Registers modules in dependency order in a registry of their own, and initializes them. -/
def boot (ids : List Nat) (w : World) : Except Error Nat × World :=
  let listed := ids.filterMap fun id ↦ w.modules[id]?.map (id, ·)
  match Order.dependencyOrder (fun m : Nat × Module ↦ m.2.name) (·.2.dependsOn) listed with
  | .error e => (.error e, w)
  | .ok ordered =>
    let r := w.registries.length
    match each (register run r) (ordered.map (·.1)) { w with registries := w.registries ++ [.empty] } with
    | (.error e, w) => (.error e, w)
    | (.ok _, w) =>
      match initializeAll run r w with
      | (.error e, w) => (.error e, w)
      | (.ok _, w) => (.ok r, w)

end World
end GameHost
