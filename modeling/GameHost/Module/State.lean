namespace GameHost

inductive ModuleState
  | created | registered | initialized | running | closed | shutdown | destroyed
  deriving DecidableEq, Repr

namespace ModuleState

def name : ModuleState → String
  | created => "Created"
  | registered => "Registered"
  | initialized => "Initialized"
  | running => "Running"
  | closed => "Closed"
  | shutdown => "Shutdown"
  | destroyed => "Destroyed"

def all : List ModuleState := [created, registered, initialized, running, closed, shutdown, destroyed]

def ofName? (text : String) : Option ModuleState := all.find? (·.name == text)

def next? : ModuleState → Option ModuleState
  | created => some registered
  | registered => some initialized
  | initialized => some running
  | running => some closed
  | closed => some shutdown
  | shutdown => none
  | destroyed => none

/-- Progress is one step at a time; a module may be destroyed once, from any state. -/
def canMove (source target : ModuleState) : Bool :=
  source.next? == some target || (target == destroyed && source != destroyed)

def rank : ModuleState → Nat
  | created => 0
  | registered => 1
  | initialized => 2
  | running => 3
  | closed => 4
  | shutdown => 5
  | destroyed => 6

theorem rank_lt_of_canMove {s t : ModuleState} (h : s.canMove t) : s.rank < t.rank := by
  cases s <;> cases t <;> first | decide | simp [canMove, next?] at h

end ModuleState

inductive HookKind
  | onRegister | onInit | onClose | onShutdown
  deriving DecidableEq, Repr

def HookKind.name : HookKind → String
  | onRegister => "register"
  | onInit => "initialize"
  | onClose => "close"
  | onShutdown => "shutdown"

end GameHost
