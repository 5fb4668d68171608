import GameHost.Net.Connection
import GameHost.Net.Host
import GameHost.Net.Metrics
import GameHost.Net.Writer
import GameHost.Settings.Basic

/-!
The server: a table of connections, the events that wait to be polled, and the counters.

Every function is one step that nothing interrupts. The steps of a connection may come in any order
with those of others and with the calls of the simulation.
-/

namespace GameHost

/-- `reading` is the buffer that the next read goes into. -/
structure Live where
  address : SocketAddress
  writer : Writer
  cancelled : Bool
  reading : Bytes
  deriving DecidableEq, Repr

/-- The generation counts the connections that the slot has had. -/
structure TableSlot where
  generation : UInt32
  live : Option Live
  deriving DecidableEq, Repr

/-- `spare` are the receive buffers kept for reuse, the last one given back first. -/
structure Server where
  settings : ServerSettings
  address : SocketAddress
  slots : List TableSlot
  connectionEvents : List ConnectionEvent
  receiveEvents : List ReceiveEvent
  spare : List Bytes
  metrics : Metrics
  started : Bool
  stopped : Bool
  deriving DecidableEq, Repr

namespace Server

def ofSettings (s : ServerSettings) : Except Error Server :=
  if s.violations ≠ [] then .error (.config (.invalidServer s.violations))
  else
    match IpAddress.ofText? s.address with
    | none => .error (.config (.badAddress s.address))
    | some ip =>
      .ok ⟨s, ⟨ip, s.port⟩, List.replicate s.maxConnections ⟨0, none⟩, [], [], [], .zero, false, false⟩

/-- The standard settings, with no more connections from one address than there are in all. -/
def create (address : String) (port : UInt16) (maxConnections : UInt32) : Except Error Server :=
  let std := ServerSettings.standard
  let n := maxConnections.toNat
  ofSettings { std with
    address, port
    maxConnections := n
    maxConnectionsPerIp := min std.maxConnectionsPerIp n }

variable (s : Server)

def listen (host : Host) : Except Error Server :=
  match host s.address.ip with
  | none => .ok s
  | some fault => .error (.io fault)

def start : Except Error Server :=
  if s.started then .error (.io .alreadyExists) else .ok { s with started := true }

/-! ### The connection table -/

def slotOf? (id : ConnectionId) : Option TableSlot :=
  s.slots[id.slot.toNat]?.filter (·.generation == id.generation)

def live? (id : ConnectionId) : Option Live := (s.slotOf? id).bind (·.live)

def isConnected (id : ConnectionId) : Bool := (s.live? id).isSome

def setSlot (i : Nat) (slot : TableSlot) : Server := { s with slots := s.slots.set i slot }

def onLive (id : ConnectionId) (f : Live → Live) : Server :=
  match s.slotOf? id with
  | some slot => s.setSlot id.slot.toNat { slot with live := slot.live.map f }
  | none => s

def lives : List Live := s.slots.filterMap (·.live)

def count : Nat := s.lives.length

def countOf (ip : IpAddress) : Nat := s.lives.countP (·.address.ip == ip)

def announce (e : ConnectionEvent) : Server :=
  { s with connectionEvents := s.connectionEvents ++ [e] }

def perIpFull (ip : IpAddress) : Bool :=
  let limit := s.settings.maxConnectionsPerIp
  0 < limit && limit ≤ s.countOf ip

/-- Puts a connection into the first free slot, unless its address has enough of them. -/
def admit? (address : SocketAddress) : Option (ConnectionId × Server) :=
  if s.perIpFull address.ip then none
  else
    match s.slots.findIdx? (·.live.isNone) with
    | none => none
    | some i =>
      let generation := (s.slots[i]?.map (·.generation)).getD 0
      let id := ConnectionId.ofParts (.ofNat i) generation
      let s := s.setSlot i ⟨generation, some ⟨address, .fresh, s.stopped, []⟩⟩
      some (id, s.announce ⟨id, address, .connected⟩)

def accept (address : SocketAddress) : Server :=
  match s.admit? address with
  | some (_, s) => { s with metrics := s.metrics.onAccepted }
  | none => { s with metrics := s.metrics.onRejected }

def release (id : ConnectionId) : Server :=
  match s.live? id with
  | none => s
  | some live =>
    let s := s.setSlot id.slot.toNat ⟨id.generation + 1, none⟩
    { s with metrics := s.metrics.onClosed }.announce ⟨id, live.address, .disconnected⟩

def cancel (live : Live) : Live := { live with cancelled := true }

def disconnect (id : ConnectionId) : Server := s.onLive id cancel

/-- Asks all connections to close, those to come as well. -/
def shutdown : Server :=
  { s with
    stopped := true
    slots := s.slots.map fun slot ↦ { slot with live := slot.live.map cancel } }

/-! ### Events for the simulation -/

def pollConnections (max : Nat) : List ConnectionEvent × Server :=
  (s.connectionEvents.take max, { s with connectionEvents := s.connectionEvents.drop max })

def pollReceives : List ReceiveEvent × Server := (s.receiveEvents, { s with receiveEvents := [] })

/-- Keeps the buffer of an event, unless there are enough. -/
def giveBack (e : ReceiveEvent) : Server :=
  if s.spare.length < s.settings.recvFreelistLimit then { s with spare := e.data :: s.spare } else s

/-! ### Receiving -/

/-- An emptied spare buffer, or a new one. -/
def receiveBuffer : Bytes × Server :=
  match s.spare with
  | buffer :: spare => (buffer.take 0, { s with spare })
  | [] => ([], s)

/-- The reader of a connection takes the buffer for its next read. -/
def prepareRead (id : ConnectionId) : Server :=
  let (reading, s) := s.receiveBuffer
  s.onLive id fun live ↦ { live with reading }

/-- Bytes arrive in the buffer at hand and wait to be polled. -/
def receive (id : ConnectionId) (data : Bytes) : Server :=
  match s.live? id with
  | none => s
  | some live =>
    let s := s.onLive id fun live ↦ { live with reading := [] }
    { s with
      metrics := s.metrics.onReceived (.ofNat data.length)
      receiveEvents := s.receiveEvents ++ [⟨id, live.reading ++ data⟩] }

/-- The reader ends, at the end of the stream or by an error. -/
def endRead (id : ConnectionId) (failed : Bool) : Server :=
  let s := s.onLive id cancel
  if failed then { s with metrics := s.metrics.onIoError } else s

/-! ### Sending -/

/-- Hands a ring to the writer of a connection. A full queue closes the connection. -/
def send (id : ConnectionId) (ring : Ring) : Server :=
  if ring.isEmpty then s
  else
    match s.live? id with
    | none => { s with metrics := s.metrics.onSendDropped }
    | some live =>
      match live.writer.offer s.settings.sendQueueDepth ring with
      | (.taken, writer) =>
        { s.onLive id ({ · with writer }) with metrics := s.metrics.onSendQueued }
      | (.full, _) => { s.onLive id cancel with metrics := s.metrics.onSendDropped }
      | (.stopped, _) => { s with metrics := s.metrics.onSendDropped }

def onWriter (id : ConnectionId) (f : Writer → Writer) : Server :=
  s.onLive id fun live ↦ { live with writer := f live.writer }

def takeRing (id : ConnectionId) : Server := s.onWriter id Writer.take

def writeSome (id : ConnectionId) (n : Nat) : Server := s.onWriter id (·.write n)

/-- Bytes are counted when their ring is done. -/
def finishRing (id : ConnectionId) : Server :=
  match (s.live? id).bind (·.writer.finish?) with
  | some (sent, writer) =>
    { s.onLive id ({ · with writer }) with metrics := s.metrics.onSent (.ofNat sent) }
  | none => s

/-- The writer ends, because it was asked to or by an error. -/
def endWrite (id : ConnectionId) (failed : Bool) : Server :=
  let s := s.onLive id fun live ↦ cancel { live with writer := live.writer.stop }
  if failed then { s with metrics := s.metrics.onIoError } else s

end Server
end GameHost
