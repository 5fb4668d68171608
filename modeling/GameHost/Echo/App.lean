import GameHost.Buffer.Pool
import GameHost.Echo.Session
import GameHost.Net.Server
import GameHost.Wire.Decode
import GameHost.Wire.Frame

namespace GameHost

structure Peer where
  record : Record SessionData
  pending : Bytes
  deriving DecidableEq, Repr

structure Echo where
  server : Server
  pool : Pool
  peers : List (ConnectionId × Peer)
  tick : UInt32

namespace Echo

/-- No more connection events than this are taken in one tick. -/
def pollLimit : Nat := 64

def ofServer (server : Server) (settings : PacketSettings) (tick : UInt32) : Echo :=
  ⟨server, .ofCount settings.poolBuffers settings.bufferCapacity, [], tick⟩

variable (app : Echo)

def peer? (id : ConnectionId) : Option Peer := app.peers.lookup id

def setPeer (id : ConnectionId) (p : Peer) : Echo :=
  { app with peers := (id, p) :: app.peers.filter (·.1 != id) }

def removePeer (id : ConnectionId) : Echo := { app with peers := app.peers.filter (·.1 != id) }

/-- A peer comes with a record and goes with it. What happens to records in between is noted. -/
def onConnection (e : ConnectionEvent) : Echo × List (PartEvent SessionData) :=
  match e.change with
  | .connected =>
    match Session.records.create Session.recordKind with
    | .ok (record, events) => (app.setPeer e.id ⟨record, []⟩, events)
    | .error _ => ({ app with server := app.server.disconnect e.id }, [])
  | .disconnected =>
    match app.peer? e.id with
    | none => (app, [])
    | some p => (app.removePeer e.id, (Session.records.destroy p.record).2)

def onConnections : List ConnectionEvent → Echo → Echo × List (PartEvent SessionData)
  | [], app => (app, [])
  | e :: es, app =>
    let (app, first) := app.onConnection e
    let (app, rest) := onConnections es app
    (app, first ++ rest)

def pollConnections : Echo × List (PartEvent SessionData) :=
  let (events, server) := app.server.pollConnections pollLimit
  onConnections events { app with server }

def reply (d : View) : Message :=
  let m := (Message.ofSchema chatSchema).setOpt 0 ((d.get 0 UInt32).map .scalar)
  let m := m.setOpt 1 ((d.chars 1).map .raw)
  m.setOpt 2 ((d.block 2).map .block)

/-- Appends to a ring, which grows if it has to. -/
def append (out : Ring) (bytes : Bytes) : Ring :=
  match out.writeAll bytes with
  | (true, out) => out
  | (false, out) =>
    let (_, grown, _) := Ring.consume (.ofCapacity ((out.capacity + bytes.length) * 2)) out
    (grown.write bytes).2

/-- What answering frames changes. -/
structure Answering where
  out : Ring
  record : Record SessionData
  pool : Pool

/-- Answers a frame, unless it is malformed, not a chat message, or too large for the pool. -/
def answer (owner tick : UInt32) (a : Answering) (frame : Bytes) : Answering :=
  match chatSchema.decodeTop? frame with
  | .error _ => a
  | .ok d =>
    match d.header with
    | none => a
    | some h =>
      if Session.approves ⟨h.kind, frame.length⟩ then
        let (buffer, pool) := a.pool.acquire
        match buffer.encodeTop (reply d) { h with owner, tick } with
        | (.ok _, buffer) =>
          ⟨append a.out buffer.contents, Session.count frame.length a.record, pool.giveBack buffer⟩
        | (.error _, buffer) => { a with pool := pool.giveBack buffer }
      else a

/-- Answers the frames that have come in whole. A peer whose stream is lost is asked to leave. -/
def process (id : ConnectionId) : Echo :=
  match app.peer? id with
  | none => app
  | some p =>
    let d := Frame.drain p.pending
    let server := if d.fault.isSome then app.server.disconnect id else app.server
    let out := Ring.ofCapacity (max d.frames.flatten.length 1)
    let a := d.frames.foldl (answer id.slot app.tick) ⟨out, p.record, app.pool⟩
    { app with server := server.send id a.out, pool := a.pool }.setPeer id ⟨a.record, d.left⟩

def onReceive (e : ReceiveEvent) : Echo :=
  let app := match app.peer? e.id with
    | some p => app.setPeer e.id { p with pending := p.pending ++ e.data }
    | none => app
  { app with server := app.server.giveBack e }.process e.id

def pollReceives : Echo :=
  let (events, server) := app.server.pollReceives
  events.foldl onReceive { app with server }

def runTick : Echo := (pollConnections { app with tick := app.tick + 1 }).1.pollReceives

end Echo
end GameHost
