import GameHost.Module.Operation
import GameHost.Module.State
import GameHost.Text.Escaped

namespace GameHost

def maxModuleName : Nat := 40

structure Module where
  name : String
  state : ModuleState
  instanceValue : Value
  hooks : List (HookKind × Script)
  dependsOn : List String
  callbacks : CallbackTable EventType (Handler Operation)
  records : RecordTable Value BlockScript

namespace Module

def create (name : String) (state : ValueType) (deps : List String)
    (hooks : List (HookKind × Script)) : Except Error Module :=
  if name = "" ∨ maxModuleName < name.utf8ByteSize then .error (.wiring .nameLength)
  else .ok ⟨name, .created, .initial state, hooks, deps, .empty name, .empty name⟩

variable (m : Module)

def move (target : ModuleState) : Except Error Module :=
  if m.state.canMove target then .ok { m with state := target }
  else .error (.badMove m.name m.state target)

/-- An error of a hook is put down to its module, unless a hook that it ran has been blamed. -/
def blame (hook : HookKind) : Error → Error
  | .hookFailed n h e => .hookFailed n h e
  | e => .hookFailed m.name hook e

def debugText : String :=
  let has (h : HookKind) := toString (m.hooks.lookup h).isSome
  "Module \x7b name: " ++ Text.Escaped.encode m.name ++ ", state: " ++ m.state.name ++
    ", depends_on: " ++ Text.Escaped.encodeList m.dependsOn ++
    ", hooks: Hooks \x7b register: " ++ has .onRegister ++ ", initialize: " ++ has .onInit ++
    ", close: " ++ has .onClose ++ ", shutdown: " ++ has .onShutdown ++ " \x7d, .. \x7d"

end Module

/-- Modules in the order of their registration, with the place of each name. -/
structure Registry where
  modules : List Nat
  places : List (String × Nat)
  deriving DecidableEq, Repr

namespace Registry

def empty : Registry := ⟨[], []⟩

variable (r : Registry)

def has (name : String) : Bool := (r.places.lookup name).isSome

def push (name : String) (id : Nat) : Registry :=
  ⟨r.modules ++ [id], r.places ++ [(name, r.modules.length)]⟩

def get? (name : String) : Option Nat := (r.places.lookup name).bind (r.modules[·]?)

end Registry

inductive Note
  | moved (id : Nat) (source target : ModuleState)
  | started (hook : HookKind) (id : Nat) (name : String)
  | enlisted (registry id : Nat)
  | emptied (registry : Nat)
  | hookError (hook : HookKind) (error : Error)
  | softError (error : Error)
  | handlerError (error : Error)
  | answered (label : String) (answer : Answer)
  | missed (label : String)
  | part (event : PartEvent Value)
  | read (tag : String) (entry : String × String)
  | said (text : String)

/-- Modules move on, registries fill and empty, and parts without a label come and go, unnoticed. -/
def Note.line? : Note → Option String
  | moved .. | enlisted .. | emptied .. => none
  | started hook _ name => some s!"{hook.name}:{name}"
  | hookError hook e => some s!"{hook.name} error {e.message}"
  | softError e => some s!"soft {e.message}"
  | handlerError e => some s!"handler error {e.message}"
  | answered label a => some s!"{label}={a.plain}"
  | missed label => some (label ++ "=\x7b\"error\":\"NoSuchName\"\x7d")
  | part (.made p) => p.label.map ("ctor:" ++ ·)
  | part (.dropped p v) => p.label.map fun tag ↦ s!"dtor:{tag}:{v.shown}"
  | read tag entry => some s!"{tag}:{entry.1}={entry.2}"
  | said text => some text

/-- What an operation comes to. It is `unknown` if it refers to something that is not there, and
`unfinished` if hooks go on within hooks, or readers go on adding entries, without an end. -/
inductive Outcome
  | done (answer : Answer)
  | failed (error : Error)
  | unknown
  | unfinished

def Outcome.ofExcept {α : Type} (f : α → Answer) : Except Error α → Outcome
  | .ok a => done (f a)
  | .error e => failed e

def Outcome.notes (label : String) : Outcome → List Note
  | done a => [.answered label a]
  | unknown => [.missed label]
  | _ => []

def putNamed {α : Type} (name : String) (a : α) (named : List (String × α)) : List (String × α) :=
  (name, a) :: named.filter (·.1 != name)

/-- The latest note comes first. -/
structure World where
  modules : List Module
  registries : List Registry
  current : Nat
  aliases : List (String × Nat)
  keys : List (String × RecordKey ValueType)
  records : List (String × Record Value)
  documents : List (String × Document)
  notes : List Note

namespace World

def fresh : World := ⟨[], [.empty], 0, [], [], [], [], []⟩

variable (w : World)

def note (n : Note) : World := { w with notes := n :: w.notes }

def noteAll (ns : List Note) : World := { w with notes := ns.reverse ++ w.notes }

def setModule (id : Nat) (m : Module) : World := { w with modules := w.modules.set id m }

def registry (r : Nat) : Registry := w.registries.getD r .empty

def setRegistry (r : Nat) (reg : Registry) : World := { w with registries := w.registries.set r reg }

def members (r : Nat) : List (Nat × Module) :=
  (w.registry r).modules.filterMap fun id ↦ w.modules[id]?.map (id, ·)

def setDocument (name : String) (d : Document) : World :=
  { w with documents := putNamed name d w.documents }

def setRecord (name : String) (r : Record Value) : World :=
  { w with records := putNamed name r w.records }

end World
end GameHost
