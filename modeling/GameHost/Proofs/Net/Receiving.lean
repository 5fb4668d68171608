import GameHost.Proofs.Net.Outgoing

namespace GameHost.Server

variable {s next : Server} {id : ConnectionId} {live : Live}

/-- The read that a call is, if there is a connection to read from. -/
def reads (s : Server) : Call → List ReceiveEvent
  | .receive id data => if s.isConnected id then [⟨id, data⟩] else []
  | _ => []

def handsOutReceived (s : Server) : Call → List ReceiveEvent
  | .pollReceives => s.pollReceives.1
  | _ => []

/-- No reader has bytes in the buffer for its next read. -/
def Emptied (s : Server) : Prop := ∀ live ∈ s.lives, live.reading = []

theorem receiveBuffer_empty (s : Server) : s.receiveBuffer.1 = [] := by
  rw [receiveBuffer]
  split <;> rfl

namespace Emptied

theorem setSlot (h : s.Emptied) (i : ℕ) {slot : TableSlot} (hslot : ∀ live, slot.live = some live → live.reading = []) :
    (s.setSlot i slot).Emptied := by
  intro live hlive
  obtain ⟨other, hother, hat⟩ := List.mem_filterMap.1 hlive
  rcases List.mem_or_eq_of_mem_set hother with hold | rfl
  · exact h live (List.mem_filterMap.2 ⟨other, hold, hat⟩)
  · exact hslot live hat

theorem of_slotOf? (h : s.Emptied) {slot : TableSlot} (hslot : s.slotOf? id = some slot)
    (hlive : slot.live = some live) : live.reading = [] :=
  h live (List.mem_filterMap.2 ⟨slot, List.mem_of_getElem? (slotOf?_eq_some.1 hslot).1, hlive⟩)

theorem of_live? (h : s.Emptied) (hlive : s.live? id = some live) : live.reading = [] := by
  obtain ⟨slot, hslot, hlive⟩ := Option.bind_eq_some_iff.1 hlive
  exact h.of_slotOf? hslot hlive

theorem onLive (h : s.Emptied) (id : ConnectionId) {f : Live → Live}
    (hf : ∀ live, live.reading = [] → (f live).reading = []) : (s.onLive id f).Emptied := by
  rw [Server.onLive]
  split
  · next slot hslot =>
    refine h.setSlot _ fun live hlive ↦ ?_
    obtain ⟨before, hbefore, rfl⟩ := Option.map_eq_some_iff.1 hlive
    exact hf before (h.of_slotOf? hslot hbefore)
  · exact h

theorem shutdown (h : s.Emptied) : s.shutdown.Emptied := by
  intro live hlive
  obtain ⟨slot, hslot, hat⟩ := List.mem_filterMap.1 hlive
  obtain ⟨before, hbefore, rfl⟩ := List.mem_map.1 hslot
  obtain ⟨old, hold, rfl⟩ := Option.map_eq_some_iff.1 hat
  exact h old (List.mem_filterMap.2 ⟨before, hbefore, hold⟩)

end Emptied

/-- What a call does where bytes come in: the reads that it adds to the queue, and the events that it hands out. -/
structure Takes (s : Server) (read out : List ReceiveEvent) (next : Server) : Prop where
  emptied : next.Emptied
  queue : out ++ next.receiveEvents = s.receiveEvents ++ read
  spare_le : next.spare.length ≤ max s.spare.length s.settings.recvFreelistLimit

theorem takes_of_same (hemptied : next.Emptied) (hqueue : next.receiveEvents = s.receiveEvents)
    (hspare : next.spare = s.spare) : s.Takes [] [] next :=
  ⟨hemptied, by rw [hqueue, List.nil_append, List.append_nil], hspare ▸ Nat.le_max_left ..⟩

theorem receiveEvents_onLive (s : Server) (id : ConnectionId) (f : Live → Live) :
    (s.onLive id f).receiveEvents = s.receiveEvents := by
  rw [onLive]
  split <;> rfl

theorem spare_onLive (s : Server) (id : ConnectionId) (f : Live → Live) : (s.onLive id f).spare = s.spare := by
  rw [onLive]
  split <;> rfl

theorem takes_onLive (h : s.Emptied) (id : ConnectionId) (f : Live → Live)
    (hf : ∀ live, live.reading = [] → (f live).reading = []) : s.Takes [] [] (s.onLive id f) :=
  takes_of_same (h.onLive id hf) (receiveEvents_onLive s id f) (spare_onLive s id f)

theorem Takes.withMetrics {read out : List ReceiveEvent} (h : s.Takes read out next) (m : Metrics) :
    s.Takes read out { next with metrics := m } :=
  ⟨h.emptied, h.queue, h.spare_le⟩

theorem takes_accept (h : s.Emptied) (address : SocketAddress) : s.Takes [] [] (s.accept address) := by
  rw [accept]
  split
  · next hjoins =>
    obtain ⟨i, generation, -, -, -, rfl⟩ := exists_of_admit? hjoins
    refine takes_of_same (h.setSlot i fun live hlive ↦ ?_) rfl rfl
    cases hlive
    rfl
  · exact takes_of_same h rfl rfl

theorem takes_release (h : s.Emptied) (id : ConnectionId) : s.Takes [] [] (s.release id) := by
  rw [release]
  split
  · exact takes_of_same h rfl rfl
  · refine takes_of_same (h.setSlot _ fun live hlive ↦ ?_) rfl rfl
    cases hlive

theorem takes_giveBack (h : s.Emptied) (e : ReceiveEvent) : s.Takes [] [] (s.giveBack e) := by
  rw [giveBack]
  split
  · next hroom => exact ⟨h, (List.append_nil _).symm, Nat.le_trans hroom (Nat.le_max_right ..)⟩
  · exact takes_of_same h rfl rfl

theorem takes_send (h : s.Emptied) (id : ConnectionId) (ring : Ring) : s.Takes [] [] (s.send id ring) := by
  rw [send]
  split
  · exact takes_of_same h rfl rfl
  split
  · exact takes_of_same h rfl rfl
  split
  · next writer _ => exact (takes_onLive h id ({ · with writer }) fun _ hreading ↦ hreading).withMetrics _
  · exact (takes_onLive h id cancel fun _ hreading ↦ hreading).withMetrics _
  · exact takes_of_same h rfl rfl

theorem takes_prepareRead (h : s.Emptied) (id : ConnectionId) : s.Takes [] [] (s.prepareRead id) := by
  have hbuffer := s.receiveBuffer_empty
  have hemptied : s.receiveBuffer.2.Emptied := by
    rw [receiveBuffer]
    split <;> exact h
  have hrest : s.receiveBuffer.2.receiveEvents = s.receiveEvents ∧ s.receiveBuffer.2.spare.length ≤ s.spare.length := by
    rw [receiveBuffer]
    split
    · next hspare => exact ⟨rfl, hspare ▸ Nat.le_succ _⟩
    · exact ⟨rfl, Nat.le_refl _⟩
  refine ⟨hemptied.onLive id fun _ _ ↦ hbuffer, ?_, ?_⟩
  · rw [prepareRead, receiveEvents_onLive, hrest.1, List.nil_append, List.append_nil]
  · rw [prepareRead, spare_onLive]
    exact Nat.le_trans hrest.2 (Nat.le_max_left ..)

/-- What comes in is queued as it is, because nothing stood in the buffer before it. -/
theorem takes_receive (h : s.Emptied) (id : ConnectionId) (data : Bytes) :
    s.Takes (s.reads (.receive id data)) [] (s.receive id data) := by
  rw [receive, reads, isConnected]
  cases hlive : s.live? id with
  | none => exact takes_of_same h rfl rfl
  | some live =>
    have hkept := takes_onLive h id ({ · with reading := [] }) fun _ _ ↦ rfl
    refine ⟨hkept.emptied, ?_, hkept.spare_le⟩
    dsimp only
    rw [receiveEvents_onLive, h.of_live? hlive, Option.isSome_some, if_pos rfl]
    rfl

theorem takes_perform (h : s.Emptied) (c : Call) : s.Takes (s.reads c) (s.handsOutReceived c) (s.perform c) := by
  have hfailed {t : Server} (ht : s.Takes [] [] t) (failed : Bool) :
      s.Takes [] [] (if failed then { t with metrics := t.metrics.onIoError } else t) := by
    cases failed with
    | false => exact ht
    | true => exact ht.withMetrics _
  cases c with
  | accept address => exact takes_accept h address
  | release id => exact takes_release h id
  | disconnect id => exact takes_onLive h id cancel fun _ hreading ↦ hreading
  | shutdown => exact takes_of_same h.shutdown rfl rfl
  | pollConnections max => exact takes_of_same h rfl rfl
  | pollReceives => exact ⟨h, rfl, Nat.le_max_left ..⟩
  | giveBack e => exact takes_giveBack h e
  | send id ring => exact takes_send h id ring
  | prepareRead id => exact takes_prepareRead h id
  | receive id data => exact takes_receive h id data
  | endRead id failed => exact hfailed (takes_onLive h id cancel fun _ hreading ↦ hreading) failed
  | takeRing id => exact takes_onLive h id _ fun _ hreading ↦ hreading
  | writeSome id n => exact takes_onLive h id _ fun _ hreading ↦ hreading
  | finishRing id =>
    simp only [perform, finishRing]
    split
    · next writer _ => exact (takes_onLive h id ({ · with writer }) fun _ hreading ↦ hreading).withMetrics _
    · exact takes_of_same h rfl rfl
  | endWrite id failed =>
    have hended :=
      takes_onLive h id (fun live ↦ cancel { live with writer := live.writer.stop }) fun _ hreading ↦ hreading
    exact hfailed hended failed

/-- A server with what was read from its connections so far, one read after the other, and the events handed out. -/
structure Intake where
  server : Server
  read : List ReceiveEvent
  polled : List ReceiveEvent

def streamOf (id : ConnectionId) (events : List ReceiveEvent) : Bytes :=
  (events.filter (·.id == id)).flatMap (·.data)

namespace Intake

def start (s : Server) : Intake := ⟨s, [], []⟩

def step (t : Intake) (c : Call) : Intake where
  server := t.server.perform c
  read := t.read ++ t.server.reads c
  polled := t.polled ++ t.server.handsOutReceived c

def run (t : Intake) (calls : List Call) : Intake := calls.foldl step t

/-- Events are the reads, in the order in which these were queued: those handed out, and then those that wait. -/
structure InOrder (settings : ServerSettings) (t : Intake) : Prop where
  conserved : t.polled ++ t.server.receiveEvents = t.read
  streams : ∀ id, streamOf id t.polled ++ streamOf id t.server.receiveEvents = streamOf id t.read
  spare_le : t.server.spare.length ≤ settings.recvFreelistLimit

structure Sound (settings : ServerSettings) (t : Intake) : Prop where
  settings_eq : t.server.settings = settings
  emptied : t.server.Emptied
  conserved : t.polled ++ t.server.receiveEvents = t.read
  spare_le : t.server.spare.length ≤ settings.recvFreelistLimit

variable {t : Intake} {settings : ServerSettings}

theorem Sound.step (h : t.Sound settings) (c : Call) : (t.step c).Sound settings := by
  obtain ⟨_, hadds, -⟩ := t.server.adds_perform c
  have htakes := takes_perform h.emptied c
  refine ⟨hadds.settings.trans h.settings_eq, htakes.emptied, ?_, ?_⟩
  · calc t.polled ++ t.server.handsOutReceived c ++ (t.server.perform c).receiveEvents
        = t.polled ++ (t.server.receiveEvents ++ t.server.reads c) := by rw [List.append_assoc, htakes.queue]
      _ = t.read ++ t.server.reads c := by rw [← List.append_assoc, h.conserved]
  · have hspare := htakes.spare_le
    rwa [h.settings_eq, Nat.max_eq_right h.spare_le] at hspare

theorem Sound.run (h : t.Sound settings) (calls : List Call) : (t.run calls).Sound settings := by
  induction calls generalizing t with
  | nil => exact h
  | cons c calls ih => exact ih (h.step c)

theorem Sound.inOrder (h : t.Sound settings) : t.InOrder settings where
  conserved := h.conserved
  streams id := by rw [← h.conserved, streamOf, streamOf, streamOf, List.filter_append, List.flatMap_append]
  spare_le := h.spare_le

theorem Sound.start {s : Server} (hnew : ofSettings settings = .ok s) : (start s).Sound settings := by
  have hlives := lives_ofSettings hnew
  obtain ⟨-, _, rfl⟩ := exists_of_ofSettings hnew
  refine ⟨rfl, fun live hlive ↦ ?_, rfl, Nat.zero_le _⟩
  exact absurd (hlives ▸ hlive) List.not_mem_nil

end Intake

/-- Valid settings make a server, and whatever is asked of it, in whatever order, it hands out the reads as they were,
and keeps no more spare buffers than the settings say. -/
theorem received_inOrder {settings : ServerSettings} (hvalid : settings.violations = []) :
    ∃ s, ofSettings settings = .ok s ∧ ∀ calls, ((Intake.start s).run calls).InOrder settings := by
  obtain ⟨s, hnew, -⟩ := isNew_of_valid hvalid
  exact ⟨s, hnew, fun calls ↦ ((Intake.Sound.start hnew).run calls).inOrder⟩

theorem received_inOrder_standard : ServerSettings.standard.violations = [] ∧
    ∃ s, ofSettings .standard = .ok s ∧ ∀ calls, ((Intake.start s).run calls).InOrder .standard :=
  ⟨by decide, received_inOrder (by decide)⟩

/-- The second connection reads into the buffer of the first, and a buffer is spare that no event ever held. -/
example :
    let a : ConnectionId := ⟨0⟩
    let b : ConnectionId := ⟨1⟩
    let calls : List Call := [.accept ⟨.v6 [], 1⟩, .accept ⟨.v6 [], 2⟩, .prepareRead a, .receive a [1, 2, 3],
      .pollReceives, .giveBack ⟨a, [1, 2, 3]⟩, .prepareRead b, .receive b [4], .receive ⟨2⟩ [5], .giveBack ⟨b, [9]⟩]
    (Server.create "::" 0 2).map (fun s ↦
      let t := (Intake.start s).run calls
      (t.polled, t.server.receiveEvents, t.server.spare)) = .ok ([⟨a, [1, 2, 3]⟩], [⟨b, [4]⟩], [[9]]) := rfl

end GameHost.Server
