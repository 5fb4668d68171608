import GameHost.Proofs.Echo.Peers
import GameHost.Proofs.Net.Events

/-!
The bytes that the echo application keeps of those that its server hands out.

A tick takes connection events first, up to `Echo.pollLimit` of them, and then all receive events. Bytes of a
connection whose event still waits, because it came between the halves of the tick or behind too many others,
find no peer and are dropped (`crowded_dropped`). Of all other bytes none is lost: `kept_unless_early` is the
main statement.
-/

namespace GameHost

/-- What the clients and the connections do of themselves. -/
def Server.Call.isOutside : Server.Call → Bool
  | .accept _ | .release _ | .prepareRead _ | .receive .. | .endRead .. | .takeRing _ | .writeSome ..
  | .finishRing _ | .endWrite .. => true
  | _ => false

theorem Server.handsOut_of_isOutside (s : Server) {c : Server.Call} (hc : c.isOutside) : s.handsOut c = [] := by
  cases c with
  | pollConnections max => cases hc
  | _ => rfl

namespace Echo

/-- The steps of the application and those of its connections, which may also come between the halves of a
tick. -/
inductive Move
  | outside (c : Server.Call) (hc : c.isOutside)
  | polls
  | receives

/-- The application with the events that passed through its server. Of a receive event that finds no peer
the bytes are `early`; the frames cut from the stream of a peer are noted with its id. -/
structure Account where
  app : Echo
  queued : List ConnectionEvent
  polled : List ConnectionEvent
  handed : List ReceiveEvent
  early : List ReceiveEvent
  cut : List (ConnectionId × Bytes)

namespace Account

def start (app : Echo) : Account := ⟨app, [], [], [], [], []⟩

variable (a : Account)

def history : Server.History := ⟨a.app.server, a.queued, a.polled⟩

def outside (c : Server.Call) : Account :=
  { a with
    app := { a.app with server := a.app.server.perform c }
    queued := (a.history.step c).queued }

def onConnection (e : ConnectionEvent) : Account :=
  { a with app := (a.app.onConnection e).1, polled := a.polled ++ [e] }

def onReceive (e : ReceiveEvent) : Account :=
  match a.app.peer? e.id with
  | none => { a with app := a.app.onReceive e, handed := a.handed ++ [e], early := a.early ++ [e] }
  | some p =>
    { a with
      app := a.app.onReceive e
      handed := a.handed ++ [e]
      cut := a.cut ++ (Frame.drain (p.pending ++ e.data)).frames.map (e.id, ·) }

def polls : Account :=
  let (events, server) := a.app.server.pollConnections pollLimit
  events.foldl onConnection { a with app := { a.app with tick := a.app.tick + 1, server } }

def receives : Account :=
  let (events, server) := a.app.server.pollReceives
  events.foldl onReceive { a with app := { a.app with server } }

def step : Move → Account
  | .outside c _ => a.outside c
  | .polls => a.polls
  | .receives => a.receives

def run (moves : List Move) : Account := moves.foldl step a

theorem app_polls : a.polls.app = (Echo.pollConnections { a.app with tick := a.app.tick + 1 }).1 := by
  have hfold (events : List ConnectionEvent) (b : Account) :
      (events.foldl onConnection b).app = (onConnections events b.app).1 := by
    induction events generalizing b with
    | nil => rfl
    | cons e events ih => exact ih (b.onConnection e)
  exact hfold _ _

theorem app_onReceive (e : ReceiveEvent) : (a.onReceive e).app = a.app.onReceive e := by
  rw [onReceive]
  split <;> rfl

theorem app_receives : a.receives.app = a.app.pollReceives := by
  have hfold (events : List ReceiveEvent) (b : Account) :
      (events.foldl onReceive b).app = events.foldl Echo.onReceive b.app := by
    induction events generalizing b with
    | nil => rfl
    | cons e events ih => rw [List.foldl_cons, List.foldl_cons, ih, app_onReceive]
  exact hfold _ _

theorem app_tick : (a.run [.polls, .receives]).app = a.app.runTick := by
  rw [runTick, ← app_polls, ← app_receives]
  rfl

def bytesOf (id : ConnectionId) (events : List ReceiveEvent) : Bytes :=
  (events.filter (·.id == id)).flatMap (·.data)

def handedOf (id : ConnectionId) : Bytes := bytesOf id a.handed

def earlyOf (id : ConnectionId) : Bytes := bytesOf id a.early

def cutOf (id : ConnectionId) : Bytes := (a.cut.filter (·.1 == id)).flatMap (·.2)

/-- What has been appended to the stream of a peer: the frames cut from it, then the bytes that still wait. -/
def kept (id : ConnectionId) : Bytes := a.cutOf id ++ ((a.app.peer? id).map (·.pending)).getD []

def polledOf (id : ConnectionId) : List ConnectionEvent := a.polled.filter (·.id == id)

/-- What every move keeps up for one id. Nothing is said of ids whose connection was told to be gone. -/
structure Follows (a : Account) (id : ConnectionId) : Prop where
  unknown : a.polledOf id = [] →
    a.app.peer? id = none ∧ a.cutOf id = [] ∧ a.handedOf id = a.earlyOf id
  known : ∀ e, a.polledOf id = [e] → e.change = .connected →
    ∃ p, a.app.peer? id = some p ∧ a.handedOf id = a.earlyOf id ++ (a.cutOf id ++ p.pending)

variable {a : Account} {id : ConnectionId}

theorem bytesOf_concat (events : List ReceiveEvent) (e : ReceiveEvent) :
    bytesOf id (events ++ [e]) = bytesOf id events ++ if e.id = id then e.data else [] := by
  by_cases hid : e.id = id
  · simp [bytesOf, hid]
  · simp [bytesOf, hid]

theorem Follows.keep {b : Account} (h : a.Follows id) (hpolled : b.polledOf id = a.polledOf id)
    (hpeer : b.app.peer? id = a.app.peer? id) (hhanded : b.handedOf id = a.handedOf id)
    (hearly : b.earlyOf id = a.earlyOf id) (hcut : b.cutOf id = a.cutOf id) : b.Follows id := by
  constructor
  · rw [hpolled, hpeer, hcut, hhanded, hearly]
    exact h.unknown
  · rw [hpolled, hpeer, hcut, hhanded, hearly]
    exact h.known

theorem Follows.onConnection (h : a.Follows id) (e : ConnectionEvent) : (a.onConnection e).Follows id := by
  have hpolled : (a.onConnection e).polledOf id = a.polledOf id ++ if e.id = id then [e] else [] := by
    by_cases hid : e.id = id
    · simp [Account.onConnection, polledOf, hid]
    · simp [Account.onConnection, polledOf, hid]
  by_cases hid : e.id = id
  · rw [if_pos hid] at hpolled
    constructor
    · intro hnone
      rw [hpolled] at hnone
      simp at hnone
    · intro first hfirst hchange
      -- The first event of an id makes its peer, so nothing has been cut for it yet.
      rw [hpolled, List.append_eq_singleton_iff] at hfirst
      rcases hfirst with ⟨hnone, hsame⟩ | ⟨-, habsurd⟩
      · obtain ⟨-, hcut, hhanded⟩ := h.unknown hnone
        obtain rfl : e = first := List.singleton_inj.1 hsame
        obtain ⟨record, happ⟩ := a.app.onConnection_connected hchange
        have hnothing : a.handedOf id = a.earlyOf id ++ (a.cutOf id ++ []) := by simp [hcut, hhanded]
        refine ⟨⟨record, []⟩, ?_, hnothing⟩
        rw [Account.onConnection, happ, hid, peer?_setPeer]
      · cases habsurd
  · rw [if_neg hid, List.append_nil] at hpolled
    exact h.keep hpolled (a.app.peer?_onConnection_of_ne (Ne.symm hid)) rfl rfl rfl

theorem polledOf_onReceive (e : ReceiveEvent) : (a.onReceive e).polledOf id = a.polledOf id := by
  rw [Account.onReceive]
  split <;> rfl

theorem handedOf_onReceive (e : ReceiveEvent) :
    (a.onReceive e).handedOf id = a.handedOf id ++ if e.id = id then e.data else [] := by
  rw [Account.onReceive]
  split <;> exact bytesOf_concat a.handed e

theorem onReceive_of_ne {e : ReceiveEvent} (hne : e.id ≠ id) :
    (a.onReceive e).earlyOf id = a.earlyOf id ∧ (a.onReceive e).cutOf id = a.cutOf id := by
  rw [Account.onReceive]
  split
  · simp [earlyOf, bytesOf, cutOf, hne]
  · simp [earlyOf, cutOf, List.filter_map, Function.comp_def, hne]

theorem onReceive_of_none {e : ReceiveEvent} (hnone : a.app.peer? e.id = none) :
    (a.onReceive e).app.peer? e.id = none ∧ (a.onReceive e).earlyOf e.id = a.earlyOf e.id ++ e.data ∧
      (a.onReceive e).cutOf e.id = a.cutOf e.id := by
  refine ⟨?_, ?_, ?_⟩
  · rw [app_onReceive, a.app.onReceive_of_none hnone]
    exact hnone
  · simp [Account.onReceive, hnone, earlyOf, bytesOf]
  · simp [Account.onReceive, hnone, cutOf]

theorem onReceive_of_some {e : ReceiveEvent} {p : Peer} (hsome : a.app.peer? e.id = some p) :
    ∃ p', (a.onReceive e).app.peer? e.id = some p' ∧ (a.onReceive e).earlyOf e.id = a.earlyOf e.id ∧
      (a.onReceive e).cutOf e.id ++ p'.pending = a.cutOf e.id ++ (p.pending ++ e.data) := by
  obtain ⟨server, pool, record, -, happ⟩ := a.app.onReceive_of_some hsome
  refine ⟨⟨record, (Frame.drain (p.pending ++ e.data)).left⟩, ?_, ?_, ?_⟩
  · rw [app_onReceive, happ, peer?_setPeer]
  · simp [Account.onReceive, hsome, earlyOf]
  · have hcut : (a.onReceive e).cutOf e.id = a.cutOf e.id ++ (Frame.drain (p.pending ++ e.data)).frames.flatten := by
      simp [Account.onReceive, hsome, cutOf, List.filter_map, Function.comp_def, List.flatMap_map,
        List.flatMap_id']
    rw [hcut, List.append_assoc, Frame.frames_append_left]

theorem Follows.onReceive (h : a.Follows id) (e : ReceiveEvent) : (a.onReceive e).Follows id := by
  by_cases hid : e.id = id
  · subst hid
    cases hpeer : a.app.peer? e.id with
    | none =>
      obtain ⟨hpeer', hearly, hcut⟩ := onReceive_of_none hpeer
      constructor
      · intro hpolled
        rw [polledOf_onReceive] at hpolled
        obtain ⟨-, hnothing, hhanded⟩ := h.unknown hpolled
        rw [hearly, hcut, handedOf_onReceive, if_pos rfl, hhanded]
        exact ⟨hpeer', hnothing, rfl⟩
      · intro first hpolled hchange
        rw [polledOf_onReceive] at hpolled
        obtain ⟨p, hsome, -⟩ := h.known first hpolled hchange
        rw [hpeer] at hsome
        cases hsome
    | some p =>
      obtain ⟨p', hpeer', hearly, hcut⟩ := onReceive_of_some hpeer
      constructor
      · intro hpolled
        rw [polledOf_onReceive] at hpolled
        have hnone := (h.unknown hpolled).1
        rw [hpeer] at hnone
        cases hnone
      · intro first hpolled hchange
        rw [polledOf_onReceive] at hpolled
        obtain ⟨q, hsome, hhanded⟩ := h.known first hpolled hchange
        obtain rfl : p = q := Option.some.inj (hpeer.symm.trans hsome)
        refine ⟨p', hpeer', ?_⟩
        rw [handedOf_onReceive, if_pos rfl, hhanded, hearly, hcut]
        simp only [List.append_assoc]
  · obtain ⟨hearly, hcut⟩ := onReceive_of_ne (a := a) hid
    have hpeer : (a.onReceive e).app.peer? id = a.app.peer? id := by
      rw [app_onReceive, a.app.peer?_onReceive_of_ne (Ne.symm hid)]
    have hhanded : (a.onReceive e).handedOf id = a.handedOf id := by
      rw [handedOf_onReceive, if_neg hid, List.append_nil]
    exact h.keep (polledOf_onReceive e) hpeer hhanded hearly hcut

theorem Follows.step (h : a.Follows id) (m : Move) : (a.step m).Follows id := by
  cases m with
  | outside c hc => exact ⟨h.unknown, h.known⟩
  | polls =>
    have hfold (events : List ConnectionEvent) {b : Account} (hb : b.Follows id) :
        (events.foldl Account.onConnection b).Follows id := by
      induction events generalizing b with
      | nil => exact hb
      | cons e events ih => exact ih (hb.onConnection e)
    exact hfold _ ⟨h.unknown, h.known⟩
  | receives =>
    have hfold (events : List ReceiveEvent) {b : Account} (hb : b.Follows id) :
        (events.foldl Account.onReceive b).Follows id := by
      induction events generalizing b with
      | nil => exact hb
      | cons e events ih => exact ih (hb.onReceive e)
    exact hfold _ ⟨h.unknown, h.known⟩

/-! ### The events that pass through the server -/

variable {capacity : Nat}

theorem faithful_polls (h : a.history.Faithful capacity) : a.polls.history.Faithful capacity := by
  have hfold (events : List ConnectionEvent) (b : Account) :
      (events.foldl Account.onConnection b).history = ⟨b.app.server, b.queued, b.polled ++ events⟩ := by
    induction events generalizing b with
    | nil => simp [history]
    | cons e events ih =>
      rw [List.foldl_cons, ih, Account.onConnection, server_onConnection, List.append_assoc]
      rfl
  have hstays : a.app.server.Stays (a.app.server.pollConnections pollLimit).1
      (a.app.server.pollConnections pollLimit).2 := ⟨rfl, List.take_append_drop pollLimit _⟩
  have hafter := h.stay hstays
  rw [polls, hfold]
  exact hafter

theorem faithful_receives (h : a.history.Faithful capacity) : a.receives.history.Faithful capacity := by
  have hone (b : Account) (e : ReceiveEvent) :
      (b.onReceive e).history = ⟨(b.app.onReceive e).server, b.queued, b.polled⟩ := by
    rw [Account.onReceive]
    split <;> rfl
  have hfold (events : List ReceiveEvent) {b : Account} (hb : b.history.Faithful capacity) :
      (events.foldl Account.onReceive b).history.Faithful capacity := by
    induction events generalizing b with
    | nil => exact hb
    | cons e events ih =>
      have hnext := hb.stay (b.app.stays_onReceive e)
      rw [List.append_nil] at hnext
      exact ih (hone b e ▸ hnext)
  have hstays : a.app.server.Stays [] a.app.server.pollReceives.2 := ⟨rfl, rfl⟩
  have htaken := h.stay hstays
  rw [List.append_nil] at htaken
  exact hfold _ htaken

theorem faithful_step (hcapacity : capacity ≤ UInt32.size) (h : a.history.Faithful capacity) (m : Move) :
    (a.step m).history.Faithful capacity := by
  cases m with
  | outside c hc =>
    have hnext := h.step hcapacity c
    simp only [Server.History.step, history, a.app.server.handsOut_of_isOutside hc, List.append_nil] at hnext
    exact hnext
  | polls => exact faithful_polls h
  | receives => exact faithful_receives h

theorem polledOf_of_connected (h : a.history.Faithful capacity)
    (hfew : a.history.joinedIn id.slot.toNat < UInt32.size) (hid : a.app.server.isConnected id) :
    a.polledOf id = [] ∨ ∃ e, a.polledOf id = [e] ∧ e.change = .connected := by
  obtain ⟨e, hchange, hqueued⟩ := h.queued_of_connected hfew hid
  rw [← h.conserved, List.filter_append, List.append_eq_singleton_iff] at hqueued
  rcases hqueued with ⟨hnone, -⟩ | ⟨hone, -⟩
  · exact .inl hnone
  · exact .inr ⟨e, hone, hchange⟩

/-- What was handed out for a connection is what came too early and what its peer has kept. -/
theorem Follows.handedOf_eq (h : a.Follows id)
    (hpolled : a.polledOf id = [] ∨ ∃ e, a.polledOf id = [e] ∧ e.change = .connected) :
    a.handedOf id = a.earlyOf id ++ a.kept id := by
  rcases hpolled with hnone | ⟨e, hone, hchange⟩
  · obtain ⟨hpeer, hcut, hhanded⟩ := h.unknown hnone
    simp [kept, hpeer, hcut, hhanded]
  · obtain ⟨p, hpeer, hhanded⟩ := h.known e hone hchange
    simp [kept, hpeer, hhanded]

theorem run_invariant (hcapacity : capacity ≤ UInt32.size) (h : a.history.Faithful capacity)
    (hfollows : ∀ id, a.Follows id) (moves : List Move) :
    (a.run moves).history.Faithful capacity ∧ ∀ id, (a.run moves).Follows id := by
  induction moves generalizing a with
  | nil => exact ⟨h, hfollows⟩
  | cons m moves ih => exact ih (faithful_step hcapacity h m) fun id ↦ (hfollows id).step m

end Account

/-- While the ids of a slot do not come again, what is handed out for a connection in the table is in two
parts: what came before its event was polled, which is lost, and what its peer has kept. So all is kept
exactly if nothing came too early. -/
theorem kept_unless_early {settings : ServerSettings} (hvalid : settings.violations = [])
    (packets : PacketSettings) (tick : UInt32) :
    ∃ s, Server.ofSettings settings = .ok s ∧ ∀ moves,
      let a := (Account.start (.ofServer s packets tick)).run moves
      ∀ id, a.app.server.isConnected id → a.history.joinedIn id.slot.toNat < UInt32.size →
        a.handedOf id = a.earlyOf id ++ a.kept id ∧ (a.kept id = a.handedOf id ↔ a.earlyOf id = []) := by
  obtain ⟨s, hs, hnew⟩ := Server.isNew_of_valid hvalid
  refine ⟨s, hs, fun moves id hid hfew ↦ ?_⟩
  have hcapacity := Nat.le_of_lt (settings.maxConnections_lt hvalid)
  have hstart : (Account.start (.ofServer s packets tick)).history.Faithful settings.maxConnections :=
    Server.History.Faithful.start hnew
  have hfollows (id : ConnectionId) : (Account.start (.ofServer s packets tick)).Follows id :=
    ⟨fun _ ↦ ⟨rfl, rfl, rfl⟩, fun _ hpolled ↦ by cases hpolled⟩
  obtain ⟨hfaithful, hall⟩ := Account.run_invariant hcapacity hstart hfollows moves
  have hparts := (hall id).handedOf_eq (Account.polledOf_of_connected hfaithful hfew hid)
  refine ⟨hparts, ?_⟩
  rw [hparts, List.self_eq_append_left]

theorem kept_unless_early_standard : ServerSettings.standard.violations = [] ∧
    ∃ s, Server.ofSettings .standard = .ok s ∧ ∀ moves,
      let a := (Account.start (.ofServer s .standard 0)).run moves
      ∀ id, a.app.server.isConnected id → a.history.joinedIn id.slot.toNat < UInt32.size →
        a.handedOf id = a.earlyOf id ++ a.kept id ∧ (a.kept id = a.handedOf id ↔ a.earlyOf id = []) :=
  ⟨by decide, kept_unless_early (by decide) .standard 0⟩

def visit (generation : Nat) : List Move :=
  [.outside (.accept ⟨.v6 [], 1⟩) rfl, .outside (.release (.ofParts 0 (.ofNat generation))) rfl]

/-- A byte comes over a connection that as many events are queued before as are polled in one tick. -/
def crowded : List Move :=
  (List.range 32).flatMap visit ++
    [.outside (.accept ⟨.v6 [], 2⟩) rfl, .outside (.receive (.ofParts 0 32) [0xD6]) rfl, .polls, .receives, .polls]

theorem crowded_dropped : ∃ s, Server.create "::" 0 1 = .ok s ∧
    let a := (Account.start (.ofServer s .standard 0)).run crowded
    a.app.server.isConnected (.ofParts 0 32) ∧ a.handedOf (.ofParts 0 32) = [0xD6] ∧
      a.kept (.ofParts 0 32) = [] :=
  ⟨_, rfl, by decide +kernel⟩

end Echo
end GameHost
