import GameHost.Settings.Environment
import GameHost.Toml.Document
import GameHost.Toml.Quoted
import GameHost.Bytes

/-!
Settings as a TOML document.

What a document leaves out has its standard value, and what it has beyond the settings is ignored. A
group may also be an array, with its settings in their order.
-/

namespace GameHost

namespace Toml

def text? : Toml → Option String
  | text s => some s
  | _ => none

def truth? : Toml → Option Bool
  | boolean b => some b
  | _ => none

def natural? (bits : Nat) : Toml → Option Nat
  | integer n => if 0 ≤ n ∧ n < Nat.pow 2 bits then some n.toNat else none
  | _ => none

def level? (v : Toml) : Option LogLevel := v.text?.bind LogLevel.ofText?

/-- The settings of a group, by name and in order. A date holds none. -/
structure Group where
  named : String → Option Toml
  placed : Nat → Option Toml

def group? : Toml → Option Group
  | table entries => some ⟨fun name ↦ entries.lookup name, fun _ ↦ none⟩
  | array items => some ⟨fun _ ↦ none, fun i ↦ items[i]?⟩
  | date => some ⟨fun _ ↦ none, fun _ ↦ none⟩
  | _ => none

def Group.get? (g : Group) (name : String) (i : Nat) : Option Toml := (g.named name).or (g.placed i)

def readOr {α : Type} (read : Toml → Option α) (standard : α) : Option Toml → Option α
  | none => some standard
  | some v => read v

end Toml

open Toml (readOr natural? text? truth? level?)

def ServerSettings.ofToml? (v : Toml) : Option ServerSettings := do
  let g ← v.group?
  let std := ServerSettings.standard
  let nat (name : String) (i : Nat) (d : Nat) := readOr (natural? 64) d (g.get? name i)
  return {
    address := ← readOr text? std.address (g.get? "address" 0)
    port := .ofNat (← readOr (natural? 16) std.port.toNat (g.get? "port" 1))
    maxConnections := ← nat "max_connections" 2 std.maxConnections
    maxConnectionsPerIp := ← nat "max_connections_per_ip" 3 std.maxConnectionsPerIp
    recvBufferSize := ← nat "recv_buffer_size" 4 std.recvBufferSize
    sendQueueDepth := ← nat "send_queue_depth" 5 std.sendQueueDepth
    recvFreelistLimit := ← nat "recv_freelist_limit" 6 std.recvFreelistLimit
    acceptBackoff := .ofMillis (← nat "accept_backoff" 7 std.acceptBackoff.millis)
    shutdownGrace := .ofMillis (← nat "shutdown_grace" 8 std.shutdownGrace.millis) }

def PacketSettings.ofToml? (v : Toml) : Option PacketSettings := do
  let g ← v.group?
  return {
    poolBuffers := ← readOr (natural? 64) standard.poolBuffers (g.get? "pool_buffers" 0)
    bufferCapacity := ← readOr (natural? 64) standard.bufferCapacity (g.get? "buffer_capacity" 1) }

def LogSettings.ofToml? (v : Toml) : Option LogSettings := do
  let g ← v.group?
  return {
    appName := ← readOr text? standard.appName (g.get? "app_name" 0)
    level := ← readOr level? standard.level (g.get? "log_level" 1)
    json := ← readOr truth? standard.json (g.get? "json_format" 2)
    ansi := ← readOr truth? standard.ansi (g.get? "ansi" 3) }

namespace Settings

def ofToml? (v : Toml) : Option Settings := do
  let g ← v.group?
  return {
    server := ← readOr ServerSettings.ofToml? .standard (g.get? "server" 0)
    packet := ← readOr PacketSettings.ofToml? .standard (g.get? "packet" 1)
    logging := ← readOr LogSettings.ofToml? .standard (g.get? "logging" 2) }

def ofText (text : String) : Except Error Settings :=
  match (Toml.ofText? text).bind ofToml? with
  | some s => .ok s
  | none => .error (.config .malformed)

def ofFile (contents : Option Bytes) : Except Error Settings :=
  match contents.bind Bytes.text? with
  | some text => ofText text
  | none => .error (.config .unreadable)

def textLine (key text : String) : String := s!"{key} = " ++ Toml.Quoted.encode text ++ "\n"

def numberLine (key : String) (n : Nat) : String := s!"{key} = {n}\n"

def timeWord (t : TimeSpan) : UInt64 := .ofNat t.millis

def truthLine (key : String) (b : Bool) : String := s!"{key} = {b}\n"

variable (s : Settings)

def numbers : List Nat :=
  [s.server.maxConnections, s.server.maxConnectionsPerIp, s.server.recvBufferSize,
    s.server.sendQueueDepth, s.server.recvFreelistLimit, (timeWord s.server.acceptBackoff).toNat,
    (timeWord s.server.shutdownGrace).toNat, s.packet.poolBuffers, s.packet.bufferCapacity]

def document : String :=
  "[server]\n" ++ textLine "address" s.server.address ++
  numberLine "port" s.server.port.toNat ++
  numberLine "max_connections" s.server.maxConnections ++
  numberLine "max_connections_per_ip" s.server.maxConnectionsPerIp ++
  numberLine "recv_buffer_size" s.server.recvBufferSize ++
  numberLine "send_queue_depth" s.server.sendQueueDepth ++
  numberLine "recv_freelist_limit" s.server.recvFreelistLimit ++
  numberLine "accept_backoff" (timeWord s.server.acceptBackoff).toNat ++
  numberLine "shutdown_grace" (timeWord s.server.shutdownGrace).toNat ++
  "\n[packet]\n" ++ numberLine "pool_buffers" s.packet.poolBuffers ++
  numberLine "buffer_capacity" s.packet.bufferCapacity ++
  "\n[logging]\n" ++ textLine "app_name" s.logging.appName ++
  textLine "log_level" s.logging.level.name ++
  truthLine "json_format" s.logging.json ++
  truthLine "ansi" s.logging.ansi

/-- A document can only hold numbers of 64 bits with a sign. -/
def toText : Except Error String :=
  if s.numbers.all (· ≤ Int64.maxValue.toInt) then .ok s.document else .error (.config .unwritable)

end Settings
end GameHost
