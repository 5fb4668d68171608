import GameHost.Proofs.Buffer.Lending
import GameHost.Proofs.Buffer.Queue
import GameHost.Proofs.Echo.Replies
import GameHost.Proofs.Echo.Sessions

namespace GameHost

namespace Frame

/-- The frames are cut from the front of a stream one after the other. -/
inductive Cuts : Bytes → List Bytes → Bytes → Prop
  | nil {stream : Bytes} : Cuts stream [] stream
  | cons {stream frame rest left : Bytes} {frames : List Bytes} (first : step stream = .frame frame rest)
      (others : Cuts rest frames left) : Cuts stream (frame :: frames) left

theorem cuts_drain (stream : Bytes) : Cuts stream (drain stream).frames (drain stream).left := by
  induction stream using drain.induct with
  | case1 stream h =>
    rw [drain_of_wait h]
    exact .nil
  | case2 stream fault h =>
    rw [drain_of_lost h]
    exact .nil
  | case3 stream frame rest h ih =>
    rw [drain_of_frame h]
    exact .cons h ih

/-- From what is left nothing more can be cut: it waits for more bytes or is lost. -/
theorem step_left (stream : Bytes) : step (drain stream).left = (drain stream).fault.elim .wait .lost := by
  induction stream using drain.induct with
  | case1 stream h =>
    rw [drain_of_wait h]
    exact h
  | case2 stream fault h =>
    rw [drain_of_lost h]
    exact h
  | case3 stream frame rest h ih =>
    rw [drain_of_frame h]
    exact ih

end Frame

def Peer.drained (p : Peer) : Frame.Drained := Frame.drain p.pending

namespace Echo

open Session (Tallied tally)

variable {capacity room : ℕ} {owner tick : UInt32} {frame bytes : Bytes} {front frames : List Bytes} {a : Answering}

/-- The reply to a frame, unless it is too large for the buffers of the pool. -/
def replyWithin (capacity : ℕ) (owner tick : UInt32) (frame : Bytes) : Option Bytes :=
  (reply? owner tick frame).filter (·.length ≤ capacity)

def replies (capacity : ℕ) (owner tick : UInt32) (frames : List Bytes) : List Bytes :=
  frames.filterMap (replyWithin capacity owner tick)

/-- The frames that there is a reply to. -/
def echoed (capacity : ℕ) (owner tick : UInt32) (frames : List Bytes) : List Bytes :=
  frames.filter fun frame ↦ (replyWithin capacity owner tick frame).isSome

theorem approves_of_decodeTop {d : View} (hdecode : chatSchema.decodeTop frame = .ok d) (kind : UInt8) :
    Session.approves ⟨kind, frame.length⟩ = decide (kind = Session.chatKind) := by
  obtain ⟨-, -, hlength, hwhole⟩ := Schema.fits_of_decodeTop hdecode
  have hpos : 0 < frame.length := by omega
  simp only [Session.approves_eq, Session.isChat, hpos, and_true]

theorem answer_chat {d : View} (hdecode : chatSchema.decodeTop frame = .ok d)
    (hkind : (Header.ofBytes frame).kind = Session.chatKind) (hpool : a.pool.Uniform capacity) (owner tick : UInt32) :
    ∃ pool, pool.Uniform capacity ∧ answer owner tick a frame =
      let bytes := replyForm { Header.ofBytes frame with owner, tick } d
      if bytes.length ≤ capacity then ⟨append a.out bytes, Session.count frame.length a.record, pool⟩
      else { a with pool } := by
  obtain ⟨storage, pool, hacquire, hstorage, huniform⟩ := hpool.acquire
  have hheader := (Schema.fits_of_decodeTop hdecode).1
  have hencode := encodeTop_reply hdecode { Header.ofBytes frame with owner, tick } storage
  rw [hstorage] at hencode
  simp only [answer, Except.mapError_eq_ok.mp hdecode, hheader, approves_of_decodeTop hdecode, decide_eq_true_eq,
    if_pos hkind, hacquire]
  generalize replyForm { Header.ofBytes frame with owner, tick } d = bytes at hencode ⊢
  by_cases hfit : bytes.length ≤ capacity
  · rw [if_pos hfit] at hencode
    refine ⟨pool.giveBack ⟨bytes ++ storage.drop bytes.length, bytes.length⟩, huniform.giveBack ?_, ?_⟩
    · rw [List.length_append, List.length_drop]
      omega
    · simp only [PoolBuffer.encodeTop, hencode, PoolBuffer.afterEncoding, if_pos hfit, PoolBuffer.contents,
        List.take_left]
  · rw [if_neg hfit] at hencode
    refine ⟨pool.giveBack ⟨storage, 0⟩, huniform.giveBack hstorage, ?_⟩
    simp only [PoolBuffer.encodeTop, hencode, PoolBuffer.afterEncoding, if_neg hfit]

theorem answer_eq (hpool : a.pool.Uniform capacity) (owner tick : UInt32) (frame : Bytes) :
    ∃ pool, pool.Uniform capacity ∧ answer owner tick a frame =
      match replyWithin capacity owner tick frame with
      | some bytes => ⟨append a.out bytes, Session.count frame.length a.record, pool⟩
      | none => { a with pool } := by
  cases hdecode : chatSchema.decodeTop frame with
  | error e =>
    obtain ⟨fault, hfault, -⟩ := Except.mapError_eq_error.mp hdecode
    refine ⟨a.pool, hpool, ?_⟩
    simp only [answer, hfault, replyWithin, reply?, hdecode, Option.filter_none]
  | ok d =>
    rw [replyWithin, reply?_of_decodeTop hdecode]
    by_cases hkind : (Header.ofBytes frame).kind = Session.chatKind
    · obtain ⟨pool, huniform, hanswer⟩ := answer_chat hdecode hkind hpool owner tick
      refine ⟨pool, huniform, ?_⟩
      rw [hanswer, if_pos hkind, Option.filter_some]
      by_cases hfit : (replyForm { Header.ofBytes frame with owner, tick } d).length ≤ capacity
      · simp only [hfit, decide_true, if_true]
      · simp only [hfit, decide_false, Bool.false_eq_true, if_false]
    · refine ⟨a.pool, hpool, ?_⟩
      simp only [answer, Except.mapError_eq_ok.mp hdecode, (Schema.fits_of_decodeTop hdecode).1,
        approves_of_decodeTop hdecode, decide_eq_true_eq, hkind, if_false, Option.filter_none]

/-- What has come of the frames so far: their replies are in a ring that has room for `room` bytes, and the frames that
were answered are counted, on top of what was counted before. -/
structure Answering.Kept (capacity room : ℕ) (owner tick : UInt32) (count total : UInt64) (frames : List Bytes)
    (a : Answering) : Prop where
  valid : a.out.Valid
  capacity_eq : a.out.capacity = room
  toList_eq : a.out.toList = (replies capacity owner tick frames).flatten
  record_eq : a.record = tally (count + .ofNat (replies capacity owner tick frames).length)
    (total + .ofNat (echoed capacity owner tick frames).flatten.length)
  uniform : a.pool.Uniform capacity

theorem reply?_of_replyWithin (h : replyWithin capacity owner tick frame = some bytes) :
    reply? owner tick frame = some bytes := (Option.filter_eq_some_iff.mp h).1

theorem length_replies_le (capacity : ℕ) (owner tick : UInt32) (frames : List Bytes) :
    (replies capacity owner tick frames).flatten.length ≤ frames.flatten.length := by
  induction frames with
  | nil => exact Nat.le_refl 0
  | cons frame frames ih =>
    rw [List.flatten_cons, List.length_append]
    cases hreply : replyWithin capacity owner tick frame with
    | none =>
      rw [replies, List.filterMap_cons_none hreply]
      exact Nat.le_add_left_of_le ih
    | some bytes =>
      have hle := (mirrors_of_reply? (reply?_of_replyWithin hreply)).length_le
      rw [replies, List.filterMap_cons_some hreply, List.flatten_cons, List.length_append]
      exact Nat.add_le_add hle ih

theorem concat_of_none (hreply : replyWithin capacity owner tick frame = none) (front : List Bytes) :
    replies capacity owner tick (front ++ [frame]) = replies capacity owner tick front ∧
      echoed capacity owner tick (front ++ [frame]) = echoed capacity owner tick front := by
  simp [replies, echoed, hreply]

theorem concat_of_some (hreply : replyWithin capacity owner tick frame = some bytes) (front : List Bytes) :
    replies capacity owner tick (front ++ [frame]) = replies capacity owner tick front ++ [bytes] ∧
      echoed capacity owner tick (front ++ [frame]) = echoed capacity owner tick front ++ [frame] := by
  simp [replies, echoed, hreply]

theorem append_of_le {out : Ring} (h : bytes.length ≤ out.free) : append out bytes = (out.write bytes).2 := by
  rw [append, Ring.writeAll, if_neg (Nat.not_lt.mpr h)]

namespace Answering

variable {count total : UInt64}

theorem Kept.fits (h : Kept capacity room owner tick count total front a)
    (hroom : (front ++ [frame]).flatten.length ≤ room) (hreply : reply? owner tick frame = some bytes) :
    bytes.length ≤ a.out.free := by
  have hlength := h.valid.length_toList
  have hfront := length_replies_le capacity owner tick front
  have hframe := (mirrors_of_reply? hreply).length_le
  have hfree : a.out.free = a.out.capacity - a.out.size := rfl
  rw [List.flatten_append, List.flatten_singleton, List.length_append] at hroom
  rw [h.toList_eq] at hlength
  rw [hfree, h.capacity_eq]
  omega

theorem Kept.answer (h : Kept capacity room owner tick count total front a)
    (hroom : (front ++ [frame]).flatten.length ≤ room) :
    Kept capacity room owner tick count total (front ++ [frame]) (answer owner tick a frame) := by
  obtain ⟨pool, huniform, hanswer⟩ := answer_eq h.uniform owner tick frame
  rw [hanswer]
  cases hreply : replyWithin capacity owner tick frame with
  | none =>
    obtain ⟨hreplies, hechoed⟩ := concat_of_none hreply front
    refine ⟨h.valid, h.capacity_eq, ?_, ?_, huniform⟩
    · rw [hreplies]
      exact h.toList_eq
    · rw [hreplies, hechoed]
      exact h.record_eq
  | some bytes =>
    have hfits := h.fits hroom (reply?_of_replyWithin hreply)
    obtain ⟨hreplies, hechoed⟩ := concat_of_some hreply front
    simp only [append_of_le hfits]
    refine ⟨h.valid.write bytes, ?_, ?_, ?_, huniform⟩
    · rw [h.valid.capacity_write hfits, h.capacity_eq]
    · rw [h.valid.toList_write hfits, h.toList_eq, hreplies, List.flatten_append, List.flatten_singleton]
    · rw [h.record_eq, Session.count_tally, hreplies, hechoed, List.length_append, List.flatten_append,
        List.flatten_singleton, List.length_append, List.length_singleton, UInt64.ofNat_add, UInt64.ofNat_add,
        ← UInt64.add_assoc, ← UInt64.add_assoc]
      rfl

theorem Kept.answers (h : Kept capacity room owner tick count total [] a) (hroom : frames.flatten.length ≤ room) :
    Kept capacity room owner tick count total frames (frames.foldl (Echo.answer owner tick) a) := by
  induction frames using List.reverseRecOn with
  | nil => exact h
  | append_singleton front frame ih =>
    have hfront : front.flatten.length ≤ room := by
      rw [List.flatten_append, List.length_append] at hroom
      omega
    rw [List.foldl_append]
    exact (ih hfront).answer hroom

end Answering

variable (app : Echo) {id : ConnectionId} {p : Peer}

/-- What answering the frames of a peer starts from: an empty ring with room for all of them. -/
def starting (p : Peer) : Answering :=
  ⟨.ofCapacity (max p.drained.frames.flatten.length 1), p.record, app.pool⟩

def answering (id : ConnectionId) (p : Peer) : Answering :=
  p.drained.frames.foldl (answer id.slot app.tick) (app.starting p)

theorem process_eq (hpeer : app.peer? id = some p) : app.process id =
    { app with
      server := (if p.drained.fault.isSome then app.server.disconnect id else app.server).send id
        (app.answering id p).out
      pool := (app.answering id p).pool }.setPeer id ⟨(app.answering id p).record, p.drained.left⟩ := by
  rw [process, hpeer]
  rfl

variable {app}

theorem kept_starting (hpool : app.pool.Uniform capacity) {count total : UInt64}
    (hrecord : p.record = tally count total) (owner tick : UInt32) :
    (app.starting p).Kept capacity (max p.drained.frames.flatten.length 1) owner tick count total [] where
  valid := (Ring.holds_ofCapacity _).valid
  capacity_eq := (Ring.holds_ofCapacity _).capacity_eq
  toList_eq := (Ring.holds_ofCapacity _).toList_eq
  record_eq := by
    rw [starting, hrecord]
    simp [replies, echoed]
  uniform := hpool

/-! ### Beats -/

/-- One event at a time. Between events, anything may become of the server and the tick. -/
inductive Beat
  | between (server : Server) (tick : UInt32)
  | connection (e : ConnectionEvent)
  | receive (e : ReceiveEvent)

def beat (app : Echo) : Beat → Echo
  | .between server tick => { app with server, tick }
  | .connection e => (app.onConnection e).1
  | .receive e => app.onReceive e

def beats (app : Echo) (l : List Beat) : Echo := l.foldl beat app

theorem onConnections_eq_beats (app : Echo) (events : List ConnectionEvent) :
    (onConnections events app).1 = app.beats (events.map .connection) := by
  induction events generalizing app with
  | nil => rfl
  | cons e events ih => exact ih (app.onConnection e).1

theorem pollReceives_eq_beats (app : Echo) : app.pollReceives =
    (app.beat (.between app.server.pollReceives.2 app.tick)).beats (app.server.receiveEvents.map .receive) := by
  rw [beats, List.foldl_map]
  rfl

theorem runTick_eq_beats (app : Echo) : ∃ l, app.runTick = app.beats l := by
  let start : Beat := .between (app.server.pollConnections pollLimit).2 (app.tick + 1)
  let events : List Beat := (app.server.connectionEvents.take pollLimit).map .connection
  let polled := (app.beat start).beats events
  have hpolled : app.runTick = polled.pollReceives := congrArg pollReceives (onConnections_eq_beats (app.beat start) _)
  refine ⟨start :: (events ++ .between polled.server.pollReceives.2 polled.tick ::
    polled.server.receiveEvents.map .receive), ?_⟩
  rw [hpolled, pollReceives_eq_beats, beats, beats, List.foldl_cons, List.foldl_append]
  rfl

/-- What holds of the application whatever happens. -/
structure Steady (app : Echo) (capacity : ℕ) : Prop where
  uniform : app.pool.Uniform capacity
  tallied : ∀ id p, app.peer? id = some p → Tallied p.record

theorem Steady.ofServer (server : Server) (settings : PacketSettings) (tick : UInt32) :
    (ofServer server settings tick).Steady settings.bufferCapacity where
  uniform := .ofCount settings.poolBuffers settings.bufferCapacity
  tallied _ _ hpeer := nomatch hpeer

namespace Steady

theorem setPeer (h : app.Steady capacity) (id : ConnectionId) (hp : Tallied p.record) :
    (app.setPeer id p).Steady capacity where
  uniform := h.uniform
  tallied other q hq := by
    by_cases hid : other = id
    · rw [hid, peer?_setPeer, Option.some_inj] at hq
      exact hq ▸ hp
    · rw [peer?_setPeer_of_ne _ hid] at hq
      exact h.tallied other q hq

theorem removePeer (h : app.Steady capacity) (id : ConnectionId) : (app.removePeer id).Steady capacity where
  uniform := h.uniform
  tallied other q hq := by
    by_cases hid : other = id
    · rw [hid, peer?_removePeer] at hq
      cases hq
    · rw [peer?_removePeer_of_ne _ hid] at hq
      exact h.tallied other q hq

theorem kept (h : app.Steady capacity) (hpeer : app.peer? id = some p) : ∃ count total, p.record = tally count total ∧
    (app.answering id p).Kept capacity (max p.drained.frames.flatten.length 1) id.slot app.tick count
      total p.drained.frames := by
  obtain ⟨count, total, hrecord⟩ := h.tallied id p hpeer
  exact ⟨count, total, hrecord, (kept_starting h.uniform hrecord id.slot app.tick).answers (Nat.le_max_left _ 1)⟩

theorem process (h : app.Steady capacity) (id : ConnectionId) : (app.process id).Steady capacity := by
  cases hpeer : app.peer? id with
  | none => rwa [process_of_none app hpeer]
  | some p =>
    obtain ⟨count, total, -, hkept⟩ := h.kept hpeer
    rw [process_eq app hpeer]
    apply setPeer
    · exact ⟨hkept.uniform, h.tallied⟩
    · exact ⟨_, _, hkept.record_eq⟩

theorem beat (h : app.Steady capacity) (b : Beat) : (app.beat b).Steady capacity := by
  cases b with
  | between server tick => exact ⟨h.uniform, h.tallied⟩
  | connection e =>
    cases he : e.change with
    | connected =>
      simp only [Echo.beat, onConnection, he, Session.create_eq]
      exact h.setPeer e.id ⟨0, 0, rfl⟩
    | disconnected =>
      rcases app.onConnection_disconnected he with happ | happ
      · rwa [Echo.beat, happ]
      · rw [Echo.beat, happ]
        exact h.removePeer e.id
  | receive e =>
    rw [Echo.beat, onReceive]
    apply process
    cases hpeer : app.peer? e.id with
    | none => exact ⟨h.uniform, h.tallied⟩
    | some p =>
      have hset := h.setPeer e.id (p := { p with pending := p.pending ++ e.data }) (h.tallied e.id p hpeer)
      exact ⟨hset.uniform, hset.tallied⟩

theorem beats (h : app.Steady capacity) (l : List Beat) : (app.beats l).Steady capacity := by
  induction l generalizing app with
  | nil => exact h
  | cons b l ih => exact ih (h.beat b)

end Steady

/-! ### Lost streams -/

/-- From the pending bytes of the peer, if there is one, nothing can be cut. -/
def Mute (app : Echo) (id : ConnectionId) (fault : DecodeFault) : Prop :=
  ∀ p, app.peer? id = some p → Frame.step p.pending = .lost fault

variable {fault : DecodeFault}

theorem Mute.beat (h : app.Mute id fault) {b : Beat}
    (hb : ∀ e, b = .connection e → e.id = id → e.change ≠ .connected) : (app.beat b).Mute id fault := by
  intro p hp
  cases b with
  | between server tick => exact h p hp
  | connection e =>
    by_cases hid : id = e.id
    · subst hid
      have he : e.change = .disconnected := by
        cases hchange : e.change with
        | connected => exact absurd hchange (hb e rfl rfl)
        | disconnected => rfl
      rcases app.onConnection_disconnected he with happ | happ
      · rw [Echo.beat, happ] at hp
        exact h p hp
      · rw [Echo.beat, happ, peer?_removePeer] at hp
        cases hp
    · rw [Echo.beat, peer?_onConnection_of_ne _ hid] at hp
      exact h p hp
  | receive e =>
    by_cases hid : id = e.id
    · subst hid
      cases hpeer : app.peer? e.id with
      | none =>
        rw [Echo.beat, app.peer?_onReceive_of_none hpeer] at hp
        cases hp
      | some q =>
        have hlost := Frame.step_append_lost (h q hpeer) e.data
        obtain ⟨server, pool, record, -, happ⟩ := onReceive_of_some app hpeer
        rw [Echo.beat, happ, peer?_setPeer, Option.some_inj, Frame.drain_of_lost hlost] at hp
        exact hp ▸ hlost
    · rw [Echo.beat, peer?_onReceive_of_ne _ hid] at hp
      exact h p hp

theorem Mute.beats (h : app.Mute id fault) {l : List Beat}
    (hl : ∀ e, .connection e ∈ l → e.id = id → e.change ≠ .connected) : (app.beats l).Mute id fault := by
  induction l generalizing app with
  | nil => exact h
  | cons b l ih =>
    refine ih (h.beat fun e he ↦ hl e ?_) fun e he ↦ hl e (.tail b he)
    rw [he]
    exact .head l

theorem setPeer_setPeer (app : Echo) (id : ConnectionId) (p q : Peer) :
    (app.setPeer id p).setPeer id q = app.setPeer id q := by
  simp [setPeer]

theorem process_of_lost (app : Echo) {p : Peer} (hlost : Frame.step p.pending = .lost fault) :
    (app.setPeer id p).process id = { app with server := app.server.disconnect id }.setPeer id p := by
  rw [process_eq _ (app.peer?_setPeer id p)]
  simp only [answering, starting, Peer.drained, Frame.drain_of_lost hlost]
  exact setPeer_setPeer { app with server := app.server.disconnect id } id p p

structure Answered (app : Echo) (capacity : ℕ) (id : ConnectionId) (p : Peer) : Prop where
  -- the frames in front of the bytes at which the stream waits or is lost
  cuts : Frame.Cuts p.pending p.drained.frames p.drained.left
  stop : Frame.step p.drained.left = p.drained.fault.elim .wait .lost
  -- chat messages have a reply, nothing else has
  replied frame : (reply? id.slot app.tick frame).isSome ↔
    ∃ d h, chatSchema.decodeTop frame = .ok d ∧ d.header = some h ∧ h.kind = Session.chatKind
  mirrors frame bytes : reply? id.slot app.tick frame = some bytes → Mirrors id.slot app.tick frame bytes
  -- whenever a reply is written, the ring has room for all of it
  fits front frame back bytes : p.drained.frames = front ++ frame :: back →
    reply? id.slot app.tick frame = some bytes →
    ((front.foldl (answer id.slot app.tick) (app.starting p)).out.writeAll bytes).1 = true
  processed : ∃ (count total : UInt64) (out : Ring) (pool : Pool), p.record = tally count total ∧
    out.toList = (replies capacity id.slot app.tick p.drained.frames).flatten ∧
    app.process id =
      { app with
        server := (if p.drained.fault.isSome then app.server.disconnect id else app.server).send id out
        pool }.setPeer id
        ⟨tally (count + UInt64.ofNat (replies capacity id.slot app.tick p.drained.frames).length)
          (total + UInt64.ofNat (echoed capacity id.slot app.tick p.drained.frames).flatten.length),
          p.drained.left⟩
  -- later calls, whatever has come in by then
  silent fault : p.drained.fault = some fault → ∀ more : List Beat,
    (∀ e, .connection e ∈ more → e.id = id → e.change ≠ .connected) →
    let later := (app.process id).beats more
    ∀ q, later.peer? id = some q → ∀ data,
      (later.setPeer id { q with pending := q.pending ++ data }).process id =
        { later with server := later.server.disconnect id }.setPeer id { q with pending := q.pending ++ data }

theorem Steady.answered (h : app.Steady capacity) (hpeer : app.peer? id = some p) : app.Answered capacity id p where
  cuts := Frame.cuts_drain p.pending
  stop := Frame.step_left p.pending
  replied frame := isSome_reply?
  mirrors frame bytes := mirrors_of_reply?
  fits front frame back bytes hframes hreply := by
    obtain ⟨count, total, hrecord⟩ := h.tallied id p hpeer
    have hroom : (front ++ [frame]).flatten.length ≤ max p.drained.frames.flatten.length 1 := by
      rw [hframes]
      simp only [List.flatten_append, List.flatten_cons, List.flatten_nil, List.length_append, List.length_nil]
      omega
    have hfront : front.flatten.length ≤ max p.drained.frames.flatten.length 1 := by
      rw [List.flatten_append, List.length_append] at hroom
      omega
    have hkept := (kept_starting h.uniform hrecord id.slot app.tick).answers hfront
    rw [Ring.writeAll, if_neg (Nat.not_lt.mpr (hkept.fits hroom hreply))]
  processed := by
    obtain ⟨count, total, hrecord, hkept⟩ := h.kept hpeer
    refine ⟨count, total, (app.answering id p).out, (app.answering id p).pool, hrecord, hkept.toList_eq, ?_⟩
    rw [process_eq app hpeer, hkept.record_eq]
  silent fault hfault more hmore q hq data := by
    have hmute : (app.process id).Mute id fault := by
      intro q hq
      rw [process_eq app hpeer, peer?_setPeer, Option.some_inj] at hq
      have hleft : Frame.step p.drained.left = p.drained.fault.elim .wait .lost := Frame.step_left p.pending
      rw [hfault] at hleft
      exact hq ▸ hleft
    exact process_of_lost _ (Frame.step_append_lost (hmute.beats hmore q hq) data)

/-- Whatever happened before and whatever bytes of a peer are pending, its chat frames are answered in their order, each
if its reply fits into the buffers of the pool. The ring has room for all replies. When the stream is lost, the peer is
asked to leave and not answered any more. -/
theorem answers_in_order (server : Server) (settings : PacketSettings) (tick : UInt32) (before : List Beat)
    (hpeer : ((ofServer server settings tick).beats before).peer? id = some p) (pending : Bytes) :
    (((ofServer server settings tick).beats before).setPeer id { p with pending }).Answered settings.bufferCapacity id
      { p with pending } := by
  have hsteady := (Steady.ofServer server settings tick).beats before
  have hset := hsteady.setPeer (p := { p with pending }) id (hsteady.tallied id p hpeer)
  exact hset.answered (peer?_setPeer _ id _)

theorem answers_in_order_greeting : ∃ p,
    let app := (ofServer deaf ⟨1, 32⟩ 7).beats [.connection ⟨⟨1⟩, ⟨.v4 127 0 0 1, 9⟩, .connected⟩]
    app.peer? ⟨1⟩ = some p ∧
      (app.setPeer ⟨1⟩ { p with pending := greeting ++ [7, 8, 9] }).Answered 32 ⟨1⟩
        { p with pending := greeting ++ [7, 8, 9] } ∧
      replies 32 1 7 [greeting] = [[0xD6, 15, 0, 1, 0, 1, 0, 0, 0, 7, 0, 0, 0, 0, 0x6B]] := by
  refine ⟨⟨tally 0 0, []⟩, rfl, answers_in_order deaf ⟨1, 32⟩ 7 _ rfl _, by decide +kernel⟩

end Echo
end GameHost
