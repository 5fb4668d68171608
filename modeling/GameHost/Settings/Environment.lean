import GameHost.Settings.Basic
import GameHost.Text.Blank
import GameHost.Text.Number

/-!
Overriding settings by environment variables.

The variables are looked at in a fixed order. One that does not parse is an error, and what the
variables before it have set stays.
-/

namespace GameHost

/-- A level by its name in any letter case, or by its number from 1 (errors only) to 5. -/
def LogLevel.ofText? (text : String) : Option LogLevel :=
  match Text.natural? 64 text with
  | some (n + 1) => all[n]?
  | some 0 => none
  | none => all.find? (·.name.toList == text.toList.map Char.toLower)

/-- The variables by their names without the common stem. -/
abbrev Environment := String → Option String

namespace Settings

abbrev Override := ExceptT Error (StateM Settings) Unit

def override {α : Type} (env : Environment) (name : String) (parse : String → Except ConfigFault α)
    (apply : α → Settings → Settings) : Override :=
  match env name with
  | none => pure ()
  | some raw =>
    match parse raw with
    | .ok a => modify (apply a)
    | .error fault => throw (.config fault)

def trimmed {α : Type} (name : String) (read : String → Option α) (raw : String) :
    Except ConfigFault α :=
  match read (Text.trimText raw) with
  | some a => .ok a
  | none => .error (.badValue name raw)

def level (raw : String) : Except ConfigFault LogLevel :=
  match LogLevel.ofText? raw with
  | some l => .ok l
  | none => .error (.badLevel raw)

def onServer (f : ServerSettings → ServerSettings) (s : Settings) : Settings :=
  { s with server := f s.server }

def onLogging (f : LogSettings → LogSettings) (s : Settings) : Settings :=
  { s with logging := f s.logging }

def overrideCount (env : Environment) (name : String) (apply : Nat → ServerSettings → ServerSettings) :
    Override :=
  override env name (trimmed name (Text.natural? 64)) fun n ↦ onServer (apply n)

def overrides (env : Environment) : Override := do
  override env "ADDRESS" .ok fun a ↦ onServer ({ · with address := a })
  override env "PORT" (trimmed "PORT" (Text.natural? 16)) fun n ↦ onServer ({ · with port := .ofNat n })
  overrideCount env "MAX_CONNECTIONS" fun n s ↦ { s with maxConnections := n }
  overrideCount env "MAX_CONNECTIONS_PER_IP" fun n s ↦ { s with maxConnectionsPerIp := n }
  overrideCount env "RECV_BUFFER_SIZE" fun n s ↦ { s with recvBufferSize := n }
  override env "LOG_LEVEL" level fun l ↦ onLogging ({ · with level := l })
  override env "LOG_JSON" (trimmed "LOG_JSON" Text.truth?) fun b ↦ onLogging ({ · with json := b })

/-- The settings after the overrides, and the error that stopped them, if any. -/
def applyEnvironment (env : Environment) (s : Settings) : Except Error Unit × Settings :=
  (overrides env).run.run s

def ofEnvironment (env : Environment) : Except Error Settings :=
  match standard.applyEnvironment env with
  | (.ok _, s) => .ok s
  | (.error e, _) => .error e

end Settings
end GameHost
