import GameHost.Module.Callbacks
import GameHost.Module.Records
import GameHost.Wire.Schema

namespace GameHost

inductive SessionType
  | session | stats
  deriving DecidableEq, Repr

/-- A session counts its frames; its statistics count the frames echoed and their bytes. -/
inductive SessionData
  | session (frames : UInt64)
  | stats (echoed bytes : UInt64)
  deriving DecidableEq, Repr

namespace SessionData

def type : SessionData → SessionType
  | session _ => .session
  | stats .. => .stats

def size : SessionType → Nat
  | .session => 8
  | .stats => 16

instance : Typed SessionData SessionType := ⟨type, size⟩

end SessionData

structure FrameEvent where
  kind : UInt8
  length : Nat
  deriving DecidableEq, Repr

namespace Session

def moduleName : String := "session"

def echoName : String := "echo"

def recordKind : UInt32 := 0

def frameCallback : UInt32 := 0

def chatKind : UInt8 := 1

/-- Records of sessions with the statistics attached: their key, and the table. -/
def wiring : Except Error (RecordKey SessionType × RecordTable SessionData Empty) := do
  let owner ← (RecordTable.empty moduleName).setLayout recordKind ⟨.session 0, none⟩
  let (key, owner) ← owner.attach recordKind echoName ⟨.stats 0 0, none⟩
  return (key, owner.close)

def statsKey : RecordKey SessionType := ⟨8, .stats⟩

def records : RecordTable SessionData Empty :=
  match wiring with
  | .ok (_, table) => table
  | .error _ => .empty moduleName

theorem wiring_eq : wiring = .ok (statsKey, records) := rfl

def isChat (e : FrameEvent) : Bool := e.kind = chatKind ∧ 0 < e.length

def subscription : Except Error (CallbackTable Unit (FrameEvent → Bool)) :=
  (CallbackTable.empty moduleName).add frameCallback ⟨echoName, (), isChat⟩

def callbacks : CallbackTable Unit (FrameEvent → Bool) :=
  match subscription with
  | .ok table => table
  | .error _ => .empty moduleName

def approves (e : FrameEvent) : Bool :=
  (callbacks.enumerate frameCallback (fun agrees e (_ : Unit) ↦ (agrees e, e, ())) () e ()).1

theorem list_callbacks : callbacks.list? frameCallback = some [⟨echoName, (), isChat⟩] := rfl

theorem approves_eq (e : FrameEvent) : approves e = isChat e := by
  cases h : isChat e <;>
    simp [approves, CallbackTable.enumerate, list_callbacks, Subscriber.askAll, Subscriber.ask, h]

def count (frameLength : Nat) (r : Record SessionData) : Record SessionData :=
  let r := match r.baseAs? SessionType.session with
    | some (.session frames) => (r.setBase? (.session (frames + 1))).getD r
    | _ => r
  match r.get? statsKey with
  | some (.stats echoed bytes) =>
    (r.set? statsKey (.stats (echoed + 1) (bytes + .ofNat frameLength))).getD r
  | _ => r

end Session

def chatSchema : Schema where
  flagWidth := .one
  fields := [.scalar .uint32, ⟨.char, 64⟩, .memoryBlock]
  count_pos := by decide
  length_le := by decide

end GameHost
