import GameHost.Proofs.Net.Admission
import GameHost.Proofs.Net.Receiving

namespace GameHost

/-- What goes through a server: connections that come and go, attempts turned away, sends of rings with bytes in them,
and bytes that arrive. -/
structure Turnover where
  came : ℕ
  went : ℕ
  refused : ℕ
  offered : ℕ
  bytes : ℕ

namespace Turnover

def zero : Turnover := ⟨0, 0, 0, 0, 0⟩

def add (a b : Turnover) : Turnover :=
  ⟨a.came + b.came, a.went + b.went, a.refused + b.refused, a.offered + b.offered, a.bytes + b.bytes⟩

end Turnover

namespace Metrics

structure Counts (m : Metrics) (done : Turnover) (after : Metrics) : Prop where
  accepted : after.accepted = m.accepted + .ofNat done.came
  active : after.active + .ofNat done.went = m.active + .ofNat done.came
  rejected : after.rejected = m.rejected + .ofNat done.refused
  sends : after.sendBuffers + after.sendsDropped = m.sendBuffers + m.sendsDropped + .ofNat done.offered
  bytesReceived : after.bytesReceived = m.bytesReceived + .ofNat done.bytes

variable {m after last : Metrics}

theorem counts_refl (m : Metrics) : m.Counts .zero m := by constructor <;> simp [Turnover.zero]

theorem counts_onAccepted (m : Metrics) : m.Counts ⟨1, 0, 0, 0, 0⟩ m.onAccepted := by constructor <;> simp [onAccepted]

theorem counts_onRejected (m : Metrics) : m.Counts ⟨0, 0, 1, 0, 0⟩ m.onRejected := by constructor <;> simp [onRejected]

theorem counts_onClosed (m : Metrics) : m.Counts ⟨0, 1, 0, 0, 0⟩ m.onClosed := by constructor <;> simp [onClosed]

theorem counts_onSendQueued (m : Metrics) : m.Counts ⟨0, 0, 0, 1, 0⟩ m.onSendQueued := by
  constructor <;> simp only [onSendQueued, UInt64.reduceOfNat] <;> ac_rfl

theorem counts_onSendDropped (m : Metrics) : m.Counts ⟨0, 0, 0, 1, 0⟩ m.onSendDropped := by
  constructor <;> simp [onSendDropped, UInt64.add_assoc]

theorem counts_onReceived (m : Metrics) (n : ℕ) : m.Counts ⟨0, 0, 0, 0, n⟩ (m.onReceived (.ofNat n)) := by
  constructor <;> simp [onReceived]

theorem counts_onSent (m : Metrics) (n : UInt64) : m.Counts .zero (m.onSent n) := by
  constructor <;> simp [onSent, Turnover.zero]

theorem counts_onIoError (m : Metrics) : m.Counts .zero m.onIoError := by
  constructor <;> simp [onIoError, Turnover.zero]

theorem Counts.trans {done more : Turnover} (h : m.Counts done after) (h' : after.Counts more last) :
    m.Counts (done.add more) last := by
  constructor
  · rw [h'.accepted, h.accepted, Turnover.add, UInt64.ofNat_add, UInt64.add_assoc]
  · calc last.active + .ofNat (done.went + more.went)
        = last.active + .ofNat more.went + .ofNat done.went := by rw [UInt64.ofNat_add]; ac_rfl
      _ = after.active + .ofNat done.went + .ofNat more.came := by rw [h'.active]; ac_rfl
      _ = m.active + .ofNat (done.came + more.came) := by rw [h.active, UInt64.ofNat_add, UInt64.add_assoc]
  · rw [h'.rejected, h.rejected, Turnover.add, UInt64.ofNat_add, UInt64.add_assoc]
  · rw [h'.sends, h.sends, Turnover.add, UInt64.ofNat_add, UInt64.add_assoc]
  · rw [h'.bytesReceived, h.bytesReceived, Turnover.add, UInt64.ofNat_add, UInt64.add_assoc]

end Metrics

namespace Server

variable {s : Server} {id : ConnectionId} {settings : ServerSettings} {c : Call}

/-- The connection events that a call puts behind those that wait. -/
def announces (s : Server) (c : Call) : List ConnectionEvent :=
  (s.perform c).connectionEvents.drop s.connectionEvents.length

def arrivals (s : Server) (c : Call) : List ReceiveEvent := (s.perform c).receiveEvents.drop s.receiveEvents.length

def refuses (s : Server) : Call → Bool
  | .accept address => (s.admit? address).isNone
  | _ => false

def offers : Call → Bool
  | .send _ ring => !ring.isEmpty
  | _ => false

def turnover (s : Server) (c : Call) : Turnover where
  came := (s.announces c).countP (·.change = .connected)
  went := (s.announces c).countP (·.change = .disconnected)
  refused := (s.refuses c).toNat
  offered := (offers c).toNat
  bytes := ((s.arrivals c).flatMap (·.data)).length

/-! ### One call -/

theorem arrivals_eq (h : s.Emptied) (c : Call) : s.arrivals c = s.reads c := by
  have hqueue := (takes_perform h c).queue
  by_cases hpoll : c = .pollReceives
  · subst hpoll
    exact List.drop_nil
  · have hout : s.handsOutReceived c = [] := by
      cases c with
      | pollReceives => exact absurd rfl hpoll
      | _ => rfl
    rw [hout, List.nil_append] at hqueue
    rw [arrivals, hqueue, List.drop_left]

theorem count_release (s : Server) (id : ConnectionId) : (s.release id).count + (s.isConnected id).toNat = s.count := by
  rw [isConnected]
  cases hlive : s.live? id with
  | none =>
    rw [release, hlive]
    rfl
  | some live =>
    rw [count_eq, count_eq]
    exact peers_release hlive fun _ ↦ true

/-- A call enters its turnover, in the counters as in the table. -/
structure Enters (s : Server) (c : Call) : Prop where
  counts : s.metrics.Counts (s.turnover c) (s.perform c).metrics
  count : (s.perform c).count + (s.turnover c).went = s.count + (s.turnover c).came

def passing (s : Server) (c : Call) : Turnover :=
  ⟨0, 0, (s.refuses c).toNat, (offers c).toNat, ((s.reads c).flatMap (·.data)).length⟩

theorem turnover_of_append (h : s.Emptied) {events : List ConnectionEvent}
    (hqueue : (s.perform c).connectionEvents = s.connectionEvents ++ events) :
    s.turnover c = { s.passing c with
      came := events.countP (·.change = .connected)
      went := events.countP (·.change = .disconnected) } := by
  rw [turnover, announces, hqueue, List.drop_left, arrivals_eq h, passing]

theorem turnover_of_stays (h : s.Emptied) {out : List ConnectionEvent} (hstays : s.Stays out (s.perform c)) :
    s.turnover c = s.passing c := by
  have hannounces : s.announces c = [] := by
    have hlength := congrArg List.length hstays.queue
    rw [List.length_append] at hlength
    apply List.drop_eq_nil_of_le
    omega
  rw [turnover, hannounces, arrivals_eq h]
  rfl

theorem enters_of_stays (h : s.Emptied) {out : List ConnectionEvent} (hstays : s.Stays out (s.perform c))
    (hcounts : s.metrics.Counts (s.passing c) (s.perform c).metrics) : s.Enters c := by
  have hturnover := turnover_of_stays h hstays
  refine ⟨hturnover ▸ hcounts, ?_⟩
  rw [hturnover, count_eq, count_eq, peers, hstays.table]
  rfl

theorem enters_accept (h : s.Emptied) (address : SocketAddress) : s.Enters (.accept address) := by
  cases hjoins : s.admit? address with
  | none =>
    have hnext : s.perform (.accept address) = { s with metrics := s.metrics.onRejected } := accept_of_refused hjoins
    have hstays : s.Stays [] (s.perform (.accept address)) := hnext ▸ ⟨rfl, rfl⟩
    apply enters_of_stays h hstays
    rw [hnext, passing, refuses, hjoins]
    exact s.metrics.counts_onRejected
  | some joined =>
    obtain ⟨id, next⟩ := joined
    obtain ⟨i, generation, -, -, -, rfl⟩ := exists_of_admit? hjoins
    have hqueued : (s.perform (.accept address)).connectionEvents =
        s.connectionEvents ++ [⟨id, address, .connected⟩] := by
      rw [perform, accept_of_joins hjoins]
      rfl
    have hturnover : s.turnover (.accept address) = ⟨1, 0, 0, 0, 0⟩ := by
      rw [turnover_of_append h hqueued, passing, refuses, hjoins]
      rfl
    constructor
    · rw [hturnover, perform, accept_of_joins hjoins]
      exact s.metrics.counts_onAccepted
    · rw [hturnover, count_eq, count_eq]
      exact peers_accept hjoins fun _ ↦ true

theorem enters_release (h : s.Emptied) (id : ConnectionId) : s.Enters (.release id) := by
  have hcount := s.count_release id
  cases hlive : s.live? id with
  | none =>
    have hnext : s.perform (.release id) = s := by rw [perform, release, hlive]
    have hstays : s.Stays [] (s.perform (.release id)) := by rw [hnext]; exact ⟨rfl, rfl⟩
    apply enters_of_stays h hstays
    rw [hnext]
    exact s.metrics.counts_refl
  | some live =>
    have hqueued : (s.perform (.release id)).connectionEvents =
        s.connectionEvents ++ [⟨id, live.address, .disconnected⟩] := by
      rw [perform, release, hlive]
      rfl
    have hturnover : s.turnover (.release id) = ⟨0, 1, 0, 0, 0⟩ := turnover_of_append h hqueued
    rw [isConnected, hlive] at hcount
    constructor
    · rw [hturnover, perform, release, hlive]
      exact s.metrics.counts_onClosed
    · rw [hturnover]
      exact hcount

theorem counts_send (s : Server) (id : ConnectionId) (ring : Ring) :
    s.metrics.Counts (s.passing (.send id ring)) (s.send id ring).metrics := by
  rw [send, passing, offers]
  cases ring.isEmpty with
  | true => exact s.metrics.counts_refl
  | false =>
    rw [if_neg Bool.false_ne_true]
    cases s.live? id with
    | none => exact s.metrics.counts_onSendDropped
    | some live =>
      dsimp only
      split
      · exact s.metrics.counts_onSendQueued
      · exact s.metrics.counts_onSendDropped
      · exact s.metrics.counts_onSendDropped

theorem counts_receive (s : Server) (id : ConnectionId) (data : Bytes) :
    s.metrics.Counts (s.passing (.receive id data)) (s.receive id data).metrics := by
  rw [receive, passing, reads, isConnected]
  cases s.live? id with
  | none => exact s.metrics.counts_refl
  | some live =>
    rw [Option.isSome_some, if_pos rfl, List.flatMap_singleton]
    dsimp only
    rw [metrics_onLive]
    exact s.metrics.counts_onReceived data.length

theorem counts_onLive (s : Server) (id : ConnectionId) (f : Live → Live) :
    s.metrics.Counts .zero (s.onLive id f).metrics :=
  (s.metrics_onLive id f).symm ▸ s.metrics.counts_refl

theorem counts_perform (haccept : ∀ address, c ≠ .accept address) (hrelease : ∀ id, c ≠ .release id) :
    s.metrics.Counts (s.passing c) (s.perform c).metrics := by
  have hfailed (t : Server) (ht : s.metrics.Counts .zero t.metrics) (failed : Bool) :
      s.metrics.Counts .zero (if failed then { t with metrics := t.metrics.onIoError } else t).metrics := by
    cases failed with
    | false => exact ht
    | true => exact ht.trans t.metrics.counts_onIoError
  cases c with
  | accept address => exact absurd rfl (haccept address)
  | release id => exact absurd rfl (hrelease id)
  | send id ring => exact s.counts_send id ring
  | receive id data => exact s.counts_receive id data
  | shutdown | pollConnections | pollReceives => exact s.metrics.counts_refl
  | disconnect id => exact s.counts_onLive id _
  | takeRing id => exact s.counts_onLive id _
  | writeSome id n => exact s.counts_onLive id _
  | endRead id failed => exact hfailed _ (s.counts_onLive id _) failed
  | endWrite id failed => exact hfailed _ (s.counts_onLive id _) failed
  | giveBack e =>
    rw [perform, giveBack]
    split <;> exact s.metrics.counts_refl
  | prepareRead id =>
    rw [perform, prepareRead, receiveBuffer]
    cases s.spare with
    | nil => exact s.counts_onLive id _
    | cons buffer spare => exact counts_onLive { s with spare } id _
  | finishRing id =>
    rw [perform, finishRing]
    cases (s.live? id).bind (·.writer.finish?) with
    | none => exact s.metrics.counts_refl
    | some finished => exact s.metrics.counts_onSent _

theorem enters_perform (h : s.Emptied) (c : Call) : s.Enters c := by
  by_cases haccept : ∃ address, c = .accept address
  · obtain ⟨address, rfl⟩ := haccept
    exact enters_accept h address
  by_cases hrelease : ∃ id, c = .release id
  · obtain ⟨id, rfl⟩ := hrelease
    exact enters_release h id
  · have haccept := not_exists.1 haccept
    have hrelease := not_exists.1 hrelease
    exact enters_of_stays h (stays_perform haccept hrelease) (counts_perform haccept hrelease)

/-! ### Any calls -/

structure Books where
  server : Server
  turnover : Turnover

namespace Books

def start (s : Server) : Books := ⟨s, .zero⟩

def step (b : Books) (c : Call) : Books := ⟨b.server.perform c, b.turnover.add (b.server.turnover c)⟩

def run (b : Books) (calls : List Call) : Books := calls.foldl step b

/-- The counters are what they count. A release takes one off the counter of connections if there is a connection to
release, and nothing otherwise. -/
structure Balanced (b : Books) : Prop where
  accepted : b.server.metrics.accepted = .ofNat b.turnover.came
  active : b.server.metrics.active.toNat = b.server.count
  closed : b.server.metrics.accepted = b.server.metrics.active + .ofNat b.turnover.went
  rejected : b.server.metrics.rejected = .ofNat b.turnover.refused
  sends : b.server.metrics.sendBuffers + b.server.metrics.sendsDropped = .ofNat b.turnover.offered
  bytesReceived : b.server.metrics.bytesReceived = .ofNat b.turnover.bytes
  unwrapped : ∀ id, (b.server.release id).metrics.active.toNat + (b.server.isConnected id).toNat =
    b.server.metrics.active.toNat

structure Sound (settings : ServerSettings) (b : Books) : Prop where
  limited : b.server.Limited settings
  emptied : b.server.Emptied
  counts : Metrics.zero.Counts b.turnover b.server.metrics
  count : b.server.count + b.turnover.went = b.turnover.came

variable {b : Books}

theorem Sound.step (h : b.Sound settings) (c : Call) : (b.step c).Sound settings := by
  have henters := enters_perform h.emptied c
  refine ⟨h.limited.perform c, (takes_perform h.emptied c).emptied, h.counts.trans henters.counts, ?_⟩
  have hbefore := h.count
  have hcount := henters.count
  simp only [Books.step, Turnover.add]
  omega

theorem Sound.run (h : b.Sound settings) (calls : List Call) : (b.run calls).Sound settings := by
  induction calls generalizing b with
  | nil => exact h
  | cons c calls ih => exact ih (h.step c)

/-- The table is too small for its counter to wrap. -/
theorem Sound.toNat_active (h : b.Sound settings) (hvalid : settings.violations = []) :
    b.server.metrics.active.toNat = b.server.count := by
  have hactive : b.server.metrics.active = .ofNat b.server.count := by
    apply (UInt64.add_left_inj (.ofNat b.turnover.went)).1
    rw [h.counts.active, ← h.count, UInt64.ofNat_add]
    exact UInt64.zero_add _
  have hcount : b.server.count < UInt32.size := by
    apply Nat.lt_of_le_of_lt b.server.count_le
    rw [h.limited.length_eq]
    exact settings.maxConnections_lt hvalid
  rw [hactive, UInt64.toNat_ofNat_of_lt']
  exact Nat.lt_trans hcount (by decide)

theorem Sound.balanced (h : b.Sound settings) (hvalid : settings.violations = []) : b.Balanced where
  accepted := h.counts.accepted.trans (UInt64.zero_add _)
  active := h.toNat_active hvalid
  closed := h.counts.accepted.trans h.counts.active.symm
  rejected := h.counts.rejected.trans (UInt64.zero_add _)
  sends := h.counts.sends.trans (UInt64.zero_add _)
  bytesReceived := h.counts.bytesReceived.trans (UInt64.zero_add _)
  unwrapped id := by
    have hafter : (b.server.release id).metrics.active.toNat = (b.server.release id).count :=
      (h.step (.release id)).toNat_active hvalid
    rw [h.toNat_active hvalid, hafter, count_release]

theorem Sound.start {s : Server} (hnew : ofSettings settings = .ok s) : (start s).Sound settings := by
  have hlimited := Limited.new hnew
  have hemptied := (Intake.Sound.start hnew).emptied
  have hlives := lives_ofSettings hnew
  obtain ⟨-, _, rfl⟩ := exists_of_ofSettings hnew
  exact ⟨hlimited, hemptied, Metrics.zero.counts_refl, congrArg List.length hlives⟩

end Books

/-- Valid settings make a server, and whatever is asked of it, in whatever order, its counters are what they count. -/
theorem counters_balanced (hvalid : settings.violations = []) :
    ∃ s, ofSettings settings = .ok s ∧ ∀ calls, ((Books.start s).run calls).Balanced := by
  obtain ⟨s, hnew, -⟩ := isNew_of_valid hvalid
  exact ⟨s, hnew, fun calls ↦ ((Books.Sound.start hnew).run calls).balanced hvalid⟩

theorem counters_balanced_standard : ServerSettings.standard.violations = [] ∧
    ∃ s, ofSettings .standard = .ok s ∧ ∀ calls, ((Books.start s).run calls).Balanced :=
  ⟨by decide, counters_balanced (by decide)⟩

/-- A second attempt finds the table full, a second release and a read find nobody, and a late send is dropped. -/
example :
    let id : ConnectionId := ⟨0⟩
    let ring := ((Ring.ofCapacity 3).write [1, 2]).2
    let calls : List Call := [.accept ⟨.v6 [], 1⟩, .accept ⟨.v6 [], 2⟩, .send id ring, .receive id [5, 6, 7],
      .release id, .release id, .receive id [8], .send id ring]
    (Server.create "::" 0 1).map (fun s ↦ ((Books.start s).run calls).turnover) = .ok ⟨1, 1, 1, 2, 3⟩ := rfl

end Server
end GameHost
