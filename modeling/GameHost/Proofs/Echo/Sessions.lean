import GameHost.Proofs.Echo.Peers

namespace GameHost

namespace Session

def tally (frames bytes : UInt64) : Record SessionData :=
  ⟨recordKind, .session frames, [(statsKey.offset, .stats frames bytes)]⟩

def base : Part SessionData := ⟨.session 0, none⟩

def stats : Part SessionData := ⟨.stats 0 0, none⟩

def made : List (PartEvent SessionData) := [.made base, .made stats]

def dropped (frames bytes : UInt64) : List (PartEvent SessionData) :=
  [.dropped stats (.stats frames bytes), .dropped base (.session frames)]

theorem create_eq : records.create recordKind = .ok (tally 0 0, made) := rfl

theorem destroy_tally (frames bytes : UInt64) :
    records.destroy (tally frames bytes) = (.ok (), dropped frames bytes) := rfl

theorem count_tally (length : ℕ) (frames bytes : UInt64) :
    count length (tally frames bytes) = tally (frames + 1) (bytes + .ofNat length) := rfl

def Tallied (r : Record SessionData) : Prop := ∃ frames bytes, r = tally frames bytes

theorem Tallied.count {r : Record SessionData} (h : Tallied r) (length : ℕ) : Tallied (count length r) := by
  obtain ⟨frames, bytes, rfl⟩ := h
  exact ⟨_, _, count_tally length frames bytes⟩

end Session

namespace Echo

open Session (Tallied tally made dropped)

variable (app : Echo) {id other : ConnectionId} {p : Peer}

theorem tallied_answer {a : Answering} (h : Tallied a.record) (owner tick : UInt32) (frame : Bytes) :
    Tallied (answer owner tick a frame).record := by
  rw [answer]
  split
  · exact h
  split
  · exact h
  split
  · dsimp only
    split
    · exact h.count frame.length
    · exact h
  · exact h

theorem tallied_answers {a : Answering} (h : Tallied a.record) (owner tick : UInt32) (frames : List Bytes) :
    Tallied (frames.foldl (answer owner tick) a).record := by
  induction frames generalizing a with
  | nil => exact h
  | cons frame frames ih => exact ih (tallied_answer h owner tick frame)

theorem tallied_process (hsome : app.peer? id = some p) (h : Tallied p.record) :
    ∃ p', (app.process id).peer? id = some p' ∧ Tallied p'.record := by
  rw [process, hsome]
  exact ⟨_, peer?_setPeer _ id _, tallied_answers h id.slot app.tick _⟩

theorem tallied_onReceive {e : ReceiveEvent} (hsome : app.peer? e.id = some p) (h : Tallied p.record) :
    ∃ p', (app.onReceive e).peer? e.id = some p' ∧ Tallied p'.record := by
  simp only [onReceive, hsome]
  exact tallied_process _ (app.peer?_setPeer e.id _) h

/-! ### The keys -/

def keys : List ConnectionId := app.peers.map (·.1)

theorem mem_keys : id ∈ app.keys ↔ (app.peer? id).isSome := by
  simp only [keys, peer?, List.lookup_isSome_iff, List.mem_map, beq_iff_eq]
  exact exists_congr fun entry ↦ and_congr_right fun _ ↦ eq_comm

theorem keys_removePeer (id : ConnectionId) : (app.removePeer id).keys = app.keys.filter (· != id) := by
  simp only [keys, removePeer, List.filter_map, Function.comp_def]

theorem keys_setPeer (id : ConnectionId) (p : Peer) : (app.setPeer id p).keys = id :: (app.removePeer id).keys := rfl

theorem nodup_removePeer (h : app.keys.Nodup) (id : ConnectionId) : (app.removePeer id).keys.Nodup := by
  rw [keys_removePeer]
  exact h.filter _

theorem nodup_setPeer (h : app.keys.Nodup) (id : ConnectionId) (p : Peer) : (app.setPeer id p).keys.Nodup := by
  rw [keys_setPeer, List.nodup_cons]
  refine ⟨?_, app.nodup_removePeer h id⟩
  rw [keys_removePeer]
  simp

@[simp] theorem peer?_removePeer (id : ConnectionId) : (app.removePeer id).peer? id = none := by
  have hnone : id ∉ (app.removePeer id).keys := by
    rw [keys_removePeer]
    simp
  rw [mem_keys] at hnone
  exact Option.not_isSome_iff_eq_none.1 hnone

theorem nodup_onConnection (h : app.keys.Nodup) (e : ConnectionEvent) : (app.onConnection e).1.keys.Nodup := by
  cases he : e.change with
  | connected =>
    obtain ⟨record, happ⟩ := app.onConnection_connected he
    rw [happ]
    exact app.nodup_setPeer h e.id _
  | disconnected =>
    rcases app.onConnection_disconnected he with happ | happ
    · rwa [happ]
    · rw [happ]
      exact app.nodup_removePeer h e.id

theorem nodup_onReceive (h : app.keys.Nodup) (e : ReceiveEvent) : (app.onReceive e).keys.Nodup := by
  cases hpeer : app.peer? e.id with
  | none =>
    rw [onReceive_of_none app hpeer]
    exact h
  | some p =>
    obtain ⟨server, pool, record, -, happ⟩ := onReceive_of_some app hpeer
    rw [happ]
    exact nodup_setPeer _ (nodup_setPeer _ h e.id _) e.id _

/-! ### Lives of records -/

/-- An event that was polled, with the peer that was found at its id and what then happened to parts of records. -/
structure Entry where
  event : ConnectionEvent
  found : Option Peer
  parts : List (PartEvent SessionData)

/-- The application with all events that its server was ever given, and the entries of those that were polled. -/
structure Roster where
  app : Echo
  fed : List ConnectionEvent
  entries : List Entry

/-- Whatever else becomes of the server, connection events come behind those that wait. The halves of a tick are one
move each, so that more may come between them. -/
inductive Moment
  | feeds (server : Server) (batch : List ConnectionEvent)
  | polls
  | receives

def Moment.batch : Moment → List ConnectionEvent
  | feeds _ batch => batch
  | polls => []
  | receives => []

namespace Roster

def start (app : Echo) : Roster := ⟨app, app.server.connectionEvents, []⟩

variable (r : Roster)

def feeds (server : Server) (batch : List ConnectionEvent) : Roster :=
  { r with
    app := { r.app with server := { server with connectionEvents := r.app.server.connectionEvents ++ batch } }
    fed := r.fed ++ batch }

def onConnection (e : ConnectionEvent) : Roster :=
  { r with
    app := (r.app.onConnection e).1
    entries := r.entries ++ [⟨e, r.app.peer? e.id, (r.app.onConnection e).2⟩] }

def polls : Roster :=
  let (events, server) := r.app.server.pollConnections pollLimit
  events.foldl onConnection { r with app := { r.app with tick := r.app.tick + 1, server } }

def receives : Roster := { r with app := r.app.pollReceives }

def step : Moment → Roster
  | .feeds server batch => r.feeds server batch
  | .polls => r.polls
  | .receives => r.receives

def run (moments : List Moment) : Roster := moments.foldl step r

def polled : List ConnectionEvent := r.entries.map (·.event)

def entriesOf (id : ConnectionId) : List Entry := r.entries.filter (·.event.id == id)

theorem onConnections_eq (events : List ConnectionEvent) :
    (events.foldl onConnection r).app = (onConnections events r.app).1 ∧
      (events.foldl onConnection r).entries.flatMap (·.parts) =
        r.entries.flatMap (·.parts) ++ (onConnections events r.app).2 := by
  induction events generalizing r with
  | nil => exact ⟨rfl, (List.append_nil _).symm⟩
  | cons e events ih =>
    obtain ⟨happ, hparts⟩ := ih (r.onConnection e)
    refine ⟨happ, ?_⟩
    rw [List.foldl_cons, hparts, onConnection, List.flatMap_append, List.flatMap_singleton, onConnections,
      List.append_assoc]

theorem app_tick : (r.run [.polls, .receives]).app = r.app.runTick := by
  have hpolls : r.polls.app = (pollConnections { r.app with tick := r.app.tick + 1 }).1 := (onConnections_eq _ _).1
  rw [runTick, ← hpolls]
  rfl

end Roster

/-- Every id is told to be connected once at most, and after that to be gone, once at most. -/
def InTurn (history : List ConnectionEvent) : Prop :=
  ∀ id, (history.filter (·.id == id)).map (·.change) <+: [.connected, .disconnected]

theorem InTurn.of_prefix {history rest : List ConnectionEvent} (h : InTurn (history ++ rest)) : InTurn history := by
  intro id
  have hid := h id
  rw [List.filter_append, List.map_append] at hid
  exact (List.prefix_append ..).trans hid

/-- The entries of an id, with its peer. Its record is made at the first and dropped at the second. -/
inductive Life (id : ConnectionId) : List Entry → Option Peer → Prop
  | unknown : Life id [] none
  | known {address : SocketAddress} {frames bytes : UInt64} {pending : Bytes} :
      Life id [⟨⟨id, address, .connected⟩, none, made⟩] (some ⟨tally frames bytes, pending⟩)
  | gone {address address' : SocketAddress} {frames bytes : UInt64} {pending : Bytes} :
      Life id [⟨⟨id, address, .connected⟩, none, made⟩,
        ⟨⟨id, address', .disconnected⟩, some ⟨tally frames bytes, pending⟩, dropped frames bytes⟩] none

theorem Life.meets {entries : List Entry} {peer : Option Peer} (h : Life id entries peer) (hpeer : app.peer? id = peer)
    {e : ConnectionEvent} (he : e.id = id)
    (hturn : entries.map (·.event.change) ++ [e.change] <+: [.connected, .disconnected]) :
    Life id (entries ++ [⟨e, peer, (app.onConnection e).2⟩]) ((app.onConnection e).1.peer? id) := by
  obtain ⟨_, address, change⟩ := e
  subst he
  -- Who was not heard of can only come, who is there can only go, and who has gone is not heard of again.
  cases h with
  | unknown =>
    have hchange : change = .connected := by simpa using hturn
    subst hchange
    simp only [onConnection, Session.create_eq, peer?_setPeer]
    exact .known
  | known =>
    have hchange : change = .disconnected := by simpa using hturn
    subst hchange
    simp only [onConnection, hpeer, Session.destroy_tally, peer?_removePeer]
    exact .gone
  | gone =>
    have hlength := hturn.length_le
    simp at hlength

namespace Life

variable {entries : List Entry} {peer : Option Peer} {x : Entry}

theorem isSome_iff (h : Life id entries peer) : peer.isSome ↔
    (∃ x ∈ entries, x.event.change = .connected) ∧ ¬ ∃ x ∈ entries, x.event.change = .disconnected := by
  cases h <;> simp

theorem created (h : Life id entries peer) (hx : x ∈ entries) (hchange : x.event.change = .connected) :
    x.found = none ∧ Session.records.create Session.recordKind = .ok (tally 0 0, x.parts) := by
  cases h with
  | unknown => cases hx
  | known =>
    obtain rfl := List.mem_singleton.1 hx
    exact ⟨rfl, Session.create_eq⟩
  | gone =>
    rcases List.mem_pair.1 hx with rfl | rfl
    · exact ⟨rfl, Session.create_eq⟩
    · cases hchange

theorem destroyed (h : Life id entries peer) (hx : x ∈ entries) (hchange : x.event.change = .disconnected) :
    ∃ p, x.found = some p ∧ Session.records.destroy p.record = (.ok (), x.parts) := by
  cases h with
  | unknown => cases hx
  | known =>
    obtain rfl := List.mem_singleton.1 hx
    cases hchange
  | gone =>
    rcases List.mem_pair.1 hx with rfl | rfl
    · cases hchange
    · exact ⟨_, rfl, Session.destroy_tally _ _⟩

theorem agree (h : Life id entries (some p)) : ∃ frames bytes,
    p.record.baseAs? SessionType.session = some (.session frames) ∧
      p.record.get? Session.statsKey = some (.stats frames bytes) := by
  cases h with
  | @known _ frames bytes _ => exact ⟨frames, bytes, rfl, rfl⟩

end Life

theorem peer?_onReceive_of_none {e : ReceiveEvent} (hnone : app.peer? e.id = none) :
    (app.onReceive e).peer? e.id = none := by
  rw [onReceive_of_none app hnone]
  exact hnone

variable {app}

theorem Life.onReceive {entries : List Entry} (h : Life id entries (app.peer? id)) (e : ReceiveEvent) :
    Life id entries ((app.onReceive e).peer? id) := by
  by_cases hid : id = e.id
  · subst hid
    generalize hpeer : app.peer? e.id = peer at h
    cases h with
    | unknown =>
      rw [app.peer?_onReceive_of_none hpeer]
      exact .unknown
    | known =>
      obtain ⟨⟨_, pending⟩, hafter, frames, bytes, rfl⟩ := app.tallied_onReceive hpeer ⟨_, _, rfl⟩
      rw [hafter]
      exact .known
    | gone =>
      rw [app.peer?_onReceive_of_none hpeer]
      exact .gone
  · rwa [app.peer?_onReceive_of_ne hid]

namespace Roster

variable {r : Roster} {waiting : List ConnectionEvent}

structure Sound (r : Roster) (waiting : List ConnectionEvent) : Prop where
  conserved : r.polled ++ waiting = r.fed
  distinct : r.app.keys.Nodup
  life : ∀ id, Life id (r.entriesOf id) (r.app.peer? id)

theorem Sound.start (server : Server) (settings : PacketSettings) (tick : UInt32) :
    (start (.ofServer server settings tick)).Sound server.connectionEvents where
  conserved := rfl
  distinct := List.nodup_nil
  life _ := .unknown

theorem changes_entriesOf (id : ConnectionId) :
    (r.entriesOf id).map (·.event.change) = (r.polled.filter (·.id == id)).map (·.change) := by
  simp only [entriesOf, polled, List.filter_map, List.map_map, Function.comp_def]

theorem Sound.onConnection {e : ConnectionEvent} (h : r.Sound (e :: waiting)) (hturn : InTurn r.fed) :
    (r.onConnection e).Sound waiting := by
  constructor
  · rw [polled, Roster.onConnection, List.map_append, List.append_assoc]
    exact h.conserved
  · exact r.app.nodup_onConnection h.distinct e
  · intro id
    rw [entriesOf, Roster.onConnection, List.filter_append, List.filter_singleton]
    by_cases hid : e.id = id
    · rw [beq_iff_eq.2 hid, Bool.cond_true]
      have hnext : InTurn (r.polled ++ [e]) := by
        rw [← h.conserved, ← List.singleton_append, ← List.append_assoc] at hturn
        exact hturn.of_prefix
      have hid' := hnext id
      rw [List.filter_append, List.map_append, ← changes_entriesOf, List.filter_singleton, beq_iff_eq.2 hid] at hid'
      subst hid
      exact (h.life e.id).meets r.app rfl rfl hid'
    · rw [beq_eq_false_iff_ne.2 hid, Bool.cond_false, List.append_nil, r.app.peer?_onConnection_of_ne (Ne.symm hid)]
      exact h.life id

theorem fed_onConnections (events : List ConnectionEvent) : (events.foldl Roster.onConnection r).fed = r.fed := by
  induction events generalizing r with
  | nil => rfl
  | cons e events ih => exact ih

theorem server_onConnections (events : List ConnectionEvent) :
    (events.foldl Roster.onConnection r).app.server = r.app.server := by
  induction events generalizing r with
  | nil => rfl
  | cons e events ih => exact ih.trans (r.app.server_onConnection e)

theorem Sound.onConnections {events : List ConnectionEvent} (h : r.Sound (events ++ waiting)) (hturn : InTurn r.fed) :
    (events.foldl Roster.onConnection r).Sound waiting := by
  induction events generalizing r with
  | nil => exact h
  | cons e events ih => exact ih (h.onConnection hturn) hturn

theorem Sound.polls (h : r.Sound r.app.server.connectionEvents) (hturn : InTurn r.fed) :
    r.polls.Sound r.polls.app.server.connectionEvents := by
  simp only [Roster.polls, server_onConnections, Server.pollConnections]
  apply Sound.onConnections
  · rw [List.take_append_drop]
    exact ⟨h.conserved, h.distinct, h.life⟩
  · exact hturn

theorem Sound.receives (h : r.Sound r.app.server.connectionEvents) :
    r.receives.Sound r.receives.app.server.connectionEvents := by
  have hfold (events : List ReceiveEvent) {app : Echo} (happ : Sound { r with app } app.server.connectionEvents) :
      Sound { r with app := events.foldl Echo.onReceive app }
        (events.foldl Echo.onReceive app).server.connectionEvents := by
    induction events generalizing app with
    | nil => exact happ
    | cons e events ih =>
      apply ih
      have hqueue : (app.onReceive e).server.connectionEvents = app.server.connectionEvents :=
        (app.stays_onReceive e).queue
      rw [hqueue]
      exact ⟨happ.conserved, app.nodup_onReceive happ.distinct e, fun id ↦ (happ.life id).onReceive e⟩
  exact hfold _ ⟨h.conserved, h.distinct, h.life⟩

theorem fed_step (m : Moment) : (r.step m).fed = r.fed ++ m.batch := by
  cases m with
  | feeds server batch => rfl
  | polls => exact (fed_onConnections _).trans (List.append_nil _).symm
  | receives => exact (List.append_nil _).symm

theorem Sound.step (h : r.Sound r.app.server.connectionEvents) {m : Moment} (hturn : InTurn (r.step m).fed) :
    (r.step m).Sound (r.step m).app.server.connectionEvents := by
  cases m with
  | feeds server batch =>
    refine ⟨?_, h.distinct, h.life⟩
    simp only [Roster.step, feeds, ← h.conserved, List.append_assoc]
    rfl
  | polls =>
    rw [fed_step, Moment.batch, List.append_nil] at hturn
    exact h.polls hturn
  | receives => exact h.receives

theorem Sound.run (h : r.Sound r.app.server.connectionEvents) {moments : List Moment}
    (hturn : InTurn (r.fed ++ moments.flatMap Moment.batch)) :
    (r.run moments).Sound (r.run moments).app.server.connectionEvents := by
  induction moments generalizing r with
  | nil => exact h
  | cons m moments ih =>
    rw [List.flatMap_cons, ← List.append_assoc, ← fed_step] at hturn
    exact ih (h.step hturn.of_prefix) hturn

theorem fed_run (moments : List Moment) : (r.run moments).fed = r.fed ++ moments.flatMap Moment.batch := by
  induction moments generalizing r with
  | nil => exact (List.append_nil _).symm
  | cons m moments ih =>
    rw [List.flatMap_cons, ← List.append_assoc, ← fed_step]
    exact ih

end Roster

namespace Roster

variable {r : Roster}

theorem exists_polled {id : ConnectionId} {P : ConnectionEvent → Prop} :
    (∃ e ∈ r.polled, e.id = id ∧ P e) ↔ ∃ x ∈ r.entriesOf id, P x.event := by
  simp [polled, entriesOf, and_assoc]

/-- Records live as long as connections, of which this is the history. -/
structure LiveWith (r : Roster) (history : List ConnectionEvent) : Prop where
  conserved : r.polled ++ r.app.server.connectionEvents = history
  keys : ∀ id, id ∈ r.app.keys ↔
    (∃ e ∈ r.polled, e.id = id ∧ e.change = .connected) ∧ ¬ ∃ e ∈ r.polled, e.id = id ∧ e.change = .disconnected
  distinct : r.app.keys.Nodup
  life : ∀ id, Life id (r.entriesOf id) (r.app.peer? id)
  created : ∀ x ∈ r.entries, x.event.change = .connected →
    x.found = none ∧ Session.records.create Session.recordKind = .ok (tally 0 0, x.parts)
  destroyed : ∀ x ∈ r.entries, x.event.change = .disconnected →
    ∃ p, x.found = some p ∧ Session.records.destroy p.record = (.ok (), x.parts)
  agree : ∀ id p, r.app.peer? id = some p → ∃ frames bytes,
    p.record.baseAs? SessionType.session = some (.session frames) ∧
      p.record.get? Session.statsKey = some (.stats frames bytes)

theorem Sound.liveWith (h : r.Sound r.app.server.connectionEvents) : r.LiveWith r.fed := by
  have hown {x : Entry} (hx : x ∈ r.entries) : x ∈ r.entriesOf x.event.id :=
    List.mem_filter.2 ⟨hx, beq_self_eq_true _⟩
  constructor
  · exact h.conserved
  · intro id
    rw [mem_keys, exists_polled, exists_polled]
    exact (h.life id).isSome_iff
  · exact h.distinct
  · exact h.life
  · intro x hx hchange
    exact (h.life x.event.id).created (hown hx) hchange
  · intro x hx hchange
    exact (h.life x.event.id).destroyed (hown hx) hchange
  · intro id p hpeer
    exact (hpeer ▸ h.life id).agree

end Roster

/-- However the events of connections are split over ticks, and whatever else comes in between, a record is made when
its connection is polled and dropped when the end of it is, and nothing fails. A tick is made of its halves, and no
other parts come or go in it. -/
theorem records_live_with_connections (server : Server) (settings : PacketSettings) (tick : UInt32)
    {moments : List Moment} (hturn : InTurn (server.connectionEvents ++ moments.flatMap Moment.batch)) :
    ((Roster.start (.ofServer server settings tick)).run moments).LiveWith
        (server.connectionEvents ++ moments.flatMap Moment.batch) ∧
      ∀ r : Roster, (r.run [.polls, .receives]).app = r.app.runTick ∧
        (r.run [.polls, .receives]).entries.flatMap (·.parts) =
          r.entries.flatMap (·.parts) ++ (pollConnections { r.app with tick := r.app.tick + 1 }).2 := by
  refine ⟨?_, fun r ↦ ⟨r.app_tick, (Roster.onConnections_eq _ _).2⟩⟩
  have hsound := (Roster.Sound.start server settings tick).run hturn
  have hfed := Roster.fed_run (r := Roster.start (.ofServer server settings tick)) moments
  exact hfed ▸ hsound.liveWith

def deaf : Server := ⟨.standard, ⟨.v4 0 0 0 0, 7777⟩, [], [], [], [], .zero, true, false⟩

def greeting : Bytes := [0xD6, 15, 0, 1, 0, 0, 0, 0, 0, 0, 0, 0, 0, 0, 0x6B]

/-- Two clients come, both at once, one of whom says hello twice. The other leaves. -/
def meeting : List Moment :=
  let address : SocketAddress := ⟨.v4 127 0 0 1, 9⟩
  [.feeds deaf [⟨⟨0⟩, address, .connected⟩, ⟨⟨1⟩, address, .connected⟩], .polls,
    .feeds { deaf with receiveEvents := [⟨⟨1⟩, greeting ++ greeting⟩] } [⟨⟨0⟩, address, .disconnected⟩],
    .receives, .polls]

theorem records_live_with_connections_meeting :
    let history := deaf.connectionEvents ++ meeting.flatMap Moment.batch
    let r := (Roster.start (.ofServer deaf ⟨1, 32⟩ 0)).run meeting
    InTurn history ∧ r.LiveWith history ∧ r.app.keys = [⟨1⟩] ∧
      r.entries.map (·.parts) = [made, made, dropped 0 0] ∧
      (r.app.peer? ⟨1⟩).map (·.record) = some (tally 2 30) := by
  intro history r
  have hturn : InTurn history := by
    intro id
    by_cases hfirst : id = ⟨0⟩
    · subst hfirst
      decide
    by_cases hsecond : id = ⟨1⟩
    · subst hsecond
      decide
    · simp [history, deaf, meeting, Moment.batch, beq_false_of_ne (Ne.symm hfirst), beq_false_of_ne (Ne.symm hsecond)]
  have hlive := (records_live_with_connections deaf ⟨1, 32⟩ 0 hturn).1
  exact ⟨hturn, hlive, by decide +kernel, by decide +kernel, by decide +kernel⟩

end Echo
end GameHost
