import GameHost.Echo.App
import GameHost.Proofs.Net.Calls
import GameHost.Proofs.Wire.Framing

namespace GameHost

theorem lookup_filter_ne {β : Type} {id other : ConnectionId} (hne : other ≠ id)
    (l : List (ConnectionId × β)) : (l.filter (·.1 != id)).lookup other = l.lookup other := by
  induction l with
  | nil => rfl
  | cons entry l ih =>
    obtain ⟨key, value⟩ := entry
    by_cases hkey : key = id
    · have hother : (other == key) = false := beq_false_of_ne (hkey ▸ hne)
      rw [List.filter_cons_of_neg (by simp [hkey]), ih, List.lookup_cons, hother]
    · rw [List.filter_cons_of_pos (by simpa using hkey), List.lookup_cons, List.lookup_cons, ih]

namespace Server

variable {s t u : Server} {out out' : List ConnectionEvent}

theorem Stays.trans (h : s.Stays out t) (h' : t.Stays out' u) : s.Stays (out ++ out') u where
  table := h'.table.trans h.table
  queue := by rw [List.append_assoc, h'.queue, h.queue]

end Server

namespace Session

theorem exists_create : ∃ record events, records.create recordKind = .ok (record, events) := ⟨_, _, rfl⟩

end Session

namespace Echo

open Server (Stays)

variable (app : Echo) {id other : ConnectionId}

@[simp] theorem peer?_setPeer (id : ConnectionId) (p : Peer) : (app.setPeer id p).peer? id = some p := by
  simp [peer?, setPeer]

theorem peer?_setPeer_of_ne (hne : other ≠ id) (p : Peer) : (app.setPeer id p).peer? other = app.peer? other := by
  simp only [peer?, setPeer, List.lookup_cons, beq_false_of_ne hne, lookup_filter_ne hne]

theorem peer?_removePeer_of_ne (hne : other ≠ id) : (app.removePeer id).peer? other = app.peer? other :=
  lookup_filter_ne hne app.peers

theorem onConnection_connected {e : ConnectionEvent} (he : e.change = .connected) :
    ∃ record, (app.onConnection e).1 = app.setPeer e.id ⟨record, []⟩ := by
  obtain ⟨record, events, hcreate⟩ := Session.exists_create
  refine ⟨record, ?_⟩
  simp only [onConnection, he, hcreate]

theorem onConnection_disconnected {e : ConnectionEvent} (he : e.change = .disconnected) :
    (app.onConnection e).1 = app ∨ (app.onConnection e).1 = app.removePeer e.id := by
  simp only [onConnection, he]
  cases app.peer? e.id with
  | none => exact .inl rfl
  | some p => exact .inr rfl

theorem peer?_onConnection_of_ne {e : ConnectionEvent} (hne : other ≠ e.id) :
    (app.onConnection e).1.peer? other = app.peer? other := by
  cases he : e.change with
  | connected =>
    obtain ⟨record, happ⟩ := app.onConnection_connected he
    rw [happ, peer?_setPeer_of_ne _ hne]
  | disconnected =>
    rcases app.onConnection_disconnected he with happ | happ
    · rw [happ]
    · rw [happ, peer?_removePeer_of_ne _ hne]

theorem server_onConnection (e : ConnectionEvent) : (app.onConnection e).1.server = app.server := by
  cases he : e.change with
  | connected =>
    obtain ⟨record, happ⟩ := app.onConnection_connected he
    rw [happ]
    rfl
  | disconnected =>
    rcases app.onConnection_disconnected he with happ | happ <;> rw [happ]
    rfl

theorem process_of_none (hnone : app.peer? id = none) : app.process id = app := by
  rw [process, hnone]

theorem process_of_some {p : Peer} (hsome : app.peer? id = some p) :
    ∃ server pool record, app.server.Stays [] server ∧
      app.process id = { app with server, pool }.setPeer id ⟨record, (Frame.drain p.pending).left⟩ := by
  rw [process, hsome]
  refine ⟨_, _, _, ?_, rfl⟩
  have hleave : app.server.Stays [] (app.server.disconnect id) := Server.stays_onLive id fun _ ↦ rfl
  split
  · exact hleave.trans (Server.stays_send id _)
  · exact Server.stays_send id _

theorem stays_giveBack (e : ReceiveEvent) : app.server.Stays [] (app.server.giveBack e) :=
  Server.stays_perform (c := .giveBack e) (fun _ ↦ nofun) (fun _ ↦ nofun)

theorem onReceive_of_none {e : ReceiveEvent} (hnone : app.peer? e.id = none) :
    app.onReceive e = { app with server := app.server.giveBack e } := by
  simp only [onReceive, hnone]
  exact process_of_none _ hnone

theorem onReceive_of_some {e : ReceiveEvent} {p : Peer} (hsome : app.peer? e.id = some p) :
    ∃ server pool record, app.server.Stays [] server ∧ app.onReceive e =
      ({ app with server, pool }.setPeer e.id { p with pending := p.pending ++ e.data }).setPeer e.id
        ⟨record, (Frame.drain (p.pending ++ e.data)).left⟩ := by
  simp only [onReceive, hsome]
  obtain ⟨server, pool, record, hstays, hprocess⟩ := process_of_some
    { app.setPeer e.id { p with pending := p.pending ++ e.data } with server := app.server.giveBack e }
    (app.peer?_setPeer e.id _)
  exact ⟨server, pool, record, (app.stays_giveBack e).trans hstays, hprocess⟩

theorem stays_onReceive (e : ReceiveEvent) : app.server.Stays [] (app.onReceive e).server := by
  cases hpeer : app.peer? e.id with
  | none =>
    rw [onReceive_of_none app hpeer]
    exact app.stays_giveBack e
  | some p =>
    obtain ⟨server, pool, record, hstays, happ⟩ := onReceive_of_some app hpeer
    rw [happ]
    exact hstays

theorem peer?_onReceive_of_ne {e : ReceiveEvent} (hne : other ≠ e.id) :
    (app.onReceive e).peer? other = app.peer? other := by
  cases hpeer : app.peer? e.id with
  | none =>
    rw [onReceive_of_none app hpeer]
    rfl
  | some p =>
    obtain ⟨server, pool, record, -, happ⟩ := onReceive_of_some app hpeer
    rw [happ, peer?_setPeer_of_ne _ hne, peer?_setPeer_of_ne _ hne]
    rfl

end Echo
end GameHost
