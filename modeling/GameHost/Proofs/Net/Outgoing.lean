import GameHost.Proofs.Net.Calls
import GameHost.Proofs.Net.Draining

namespace GameHost

namespace ConnectionId

theorem ext_parts {id other : ConnectionId} (hslot : id.slot = other.slot)
    (hgeneration : id.generation = other.generation) : id = other := by
  rw [← ofParts_slot_generation id, hslot, hgeneration, ofParts_slot_generation]

end ConnectionId

namespace Server

open GameHost.Ring (contents)

variable {s : Server} {id other : ConnectionId} {live : Live} {ring : Ring}

/-! ### A connection that stays -/

theorem live?_setSlot_of_ne (hlive : s.live? id = some live) {i : ℕ} (hi : i ≠ id.slot.toNat) (slot : TableSlot) :
    (s.setSlot i slot).live? id = some live := by
  rw [live?_eq_some] at hlive ⊢
  rwa [setSlot, List.getElem?_set_ne hi]

theorem live?_onLive (hlive : s.live? id = some live) (f : Live → Live) : (s.onLive id f).live? id = some (f live) := by
  rw [live?_eq_some] at hlive ⊢
  have hslot : s.slotOf? id = some ⟨id.generation, some live⟩ := slotOf?_eq_some.2 ⟨hlive, rfl⟩
  rw [onLive, hslot]
  exact List.getElem?_set_self (List.getElem?_eq_some_iff.1 hlive).1

theorem slot_ne (hlive : s.live? id = some live) (hne : other ≠ id) {slot : TableSlot}
    (hslot : s.slotOf? other = some slot) : other.slot.toNat ≠ id.slot.toNat := by
  intro hsame
  rw [live?_eq_some, ← hsame] at hlive
  rw [slotOf?_eq_some, hlive] at hslot
  obtain ⟨hslot, hgeneration⟩ := hslot
  cases hslot
  exact hne (ConnectionId.ext_parts (UInt32.toNat_inj.1 hsame) hgeneration.symm)

theorem live?_onLive_of_ne (hlive : s.live? id = some live) (hne : other ≠ id) (f : Live → Live) :
    (s.onLive other f).live? id = some live := by
  rw [onLive]
  split
  · next hslot => exact live?_setSlot_of_ne hlive (slot_ne hlive hne hslot) _
  · exact hlive

theorem live?_accept (hlive : s.live? id = some live) (address : SocketAddress) :
    (s.accept address).live? id = some live := by
  rw [accept]
  split
  · next hjoins =>
    obtain ⟨i, generation, -, hfree, rfl, rfl⟩ := exists_of_admit? hjoins
    apply live?_setSlot_of_ne hlive
    intro hsame
    rw [live?_eq_some, ← hsame, hfree] at hlive
    cases hlive
  · exact hlive

theorem live?_joined {address : SocketAddress} {next : Server} (hslots : s.slots.length ≤ UInt32.size)
    (hjoins : s.admit? address = some (id, next)) :
    (s.accept address).live? id = some ⟨address, .fresh, s.stopped, []⟩ := by
  simp only [accept, hjoins]
  obtain ⟨i, generation, -, hfree, rfl, rfl⟩ := exists_of_admit? hjoins
  have hlt := (List.getElem?_eq_some_iff.1 hfree).1
  have hi : (UInt32.ofNat i).toNat = i := UInt32.toNat_ofNat_of_lt' (Nat.lt_of_lt_of_le hlt hslots)
  rw [live?_eq_some, ConnectionId.slot_ofParts, ConnectionId.generation_ofParts, hi]
  exact List.getElem?_set_self hlt

theorem live?_release_of_ne (hlive : s.live? id = some live) (hne : other ≠ id) :
    (s.release other).live? id = some live := by
  rw [release]
  cases hgone : s.live? other with
  | none => exact hlive
  | some gone =>
    have hslot : s.slotOf? other = some ⟨other.generation, some gone⟩ := slotOf?_eq_some.2 ⟨live?_eq_some.1 hgone, rfl⟩
    exact live?_setSlot_of_ne hlive (slot_ne hlive hne hslot) _

theorem live?_shutdown (hlive : s.live? id = some live) : s.shutdown.live? id = some (cancel live) := by
  rw [live?_eq_some] at hlive ⊢
  simp [shutdown, hlive]

/-! ### Its writer -/

/-- The ring that a call hands to the writer of the connection, if it is counted as queued. -/
def accepts (s : Server) (id : ConnectionId) : Call → List Ring
  | .send other ring => if other = id ∧ (s.send id ring).metrics.sendBuffers ≠ s.metrics.sendBuffers then [ring] else []
  | _ => []

/-- How many bytes the writer of the connection counts as sent by a call. -/
def counts (s : Server) (id : ConnectionId) : Call → ℕ
  | .finishRing other => if other = id then (((s.live? id).bind (·.writer.finish?)).map (·.1)).getD 0 else 0
  | _ => 0

/-- What becomes of a connection that stays, by the rings that its writer is given and the bytes that it counts. -/
inductive Tends (depth : ℕ) (live : Live) : List Ring → ℕ → Live → Prop
  | kept {after : Live} (hwriter : after.writer = live.writer) (hcancelled : live.cancelled → after.cancelled) :
      Tends depth live [] 0 after
  | offered {ring : Ring} {writer : Writer} (hoffer : live.writer.offer depth ring = (.taken, writer)) :
      Tends depth live [ring] 0 { live with writer }
  | took : Tends depth live [] 0 { live with writer := live.writer.take }
  | wrote (n : ℕ) : Tends depth live [] 0 { live with writer := live.writer.write n }
  | finished {sent : ℕ} {writer : Writer} (hfinish : live.writer.finish? = some (sent, writer)) :
      Tends depth live [] sent { live with writer }
  | ended : Tends depth live [] 0 (cancel { live with writer := live.writer.stop })

theorem Tends.same {depth : ℕ} : Tends depth live [] 0 live := .kept rfl fun h ↦ h

theorem sendBuffers_onSendQueued (m : Metrics) : m.onSendQueued.sendBuffers ≠ m.sendBuffers := by
  intro hsame
  have hcount := congrArg UInt64.toNat hsame
  have hword := m.sendBuffers.toNat_lt
  simp only [Metrics.onSendQueued, UInt64.toNat_add, UInt64.reduceToNat] at hcount
  omega

theorem send_cases (hlive : s.live? id = some live) (hfilled : ¬ ring.isEmpty) :
    (∃ writer, live.writer.offer s.settings.sendQueueDepth ring = (.taken, writer) ∧
      s.accepts id (.send id ring) = [ring] ∧ (s.send id ring).live? id = some { live with writer }) ∨
    ((live.writer.offer s.settings.sendQueueDepth ring).1 = .full ∧ s.accepts id (.send id ring) = [] ∧
      s.send id ring = { s.onLive id cancel with metrics := s.metrics.onSendDropped }) ∨
    ((live.writer.offer s.settings.sendQueueDepth ring).1 = .stopped ∧ s.accepts id (.send id ring) = [] ∧
      s.send id ring = { s with metrics := s.metrics.onSendDropped }) := by
  rcases hoffer : live.writer.offer s.settings.sendQueueDepth ring with ⟨_ | _ | _, writer⟩
  · have hsend : s.send id ring = { s.onLive id ({ · with writer }) with metrics := s.metrics.onSendQueued } := by
      simp only [send, if_neg hfilled, hlive, hoffer]
    refine .inl ⟨writer, rfl, ?_, ?_⟩
    · simp only [accepts, hsend, true_and]
      exact if_pos (sendBuffers_onSendQueued s.metrics)
    · rw [hsend]
      exact live?_onLive hlive _
  · have hsend : s.send id ring = { s.onLive id cancel with metrics := s.metrics.onSendDropped } := by
      simp only [send, if_neg hfilled, hlive, hoffer]
    refine .inr (.inl ⟨rfl, ?_, hsend⟩)
    simp only [accepts, hsend]
    exact if_neg fun h ↦ h.2 rfl
  · have hsend : s.send id ring = { s with metrics := s.metrics.onSendDropped } := by
      simp only [send, if_neg hfilled, hlive, hoffer]
    refine .inr (.inr ⟨rfl, ?_, hsend⟩)
    simp only [accepts, hsend]
    exact if_neg fun h ↦ h.2 rfl

theorem tends_send (hlive : s.live? id = some live) (other : ConnectionId) (ring : Ring) :
    ∃ after, (s.send other ring).live? id = some after ∧
      Tends s.settings.sendQueueDepth live (s.accepts id (.send other ring)) 0 after := by
  by_cases hempty : ring.isEmpty
  · have hsend (id : ConnectionId) : s.send id ring = s := if_pos hempty
    have hnone : s.accepts id (.send other ring) = [] := by
      simp only [accepts, hsend]
      exact if_neg fun h ↦ h.2 rfl
    rw [hsend, hnone]
    exact ⟨live, hlive, .same⟩
  by_cases hother : other = id
  · subst hother
    rcases send_cases hlive hempty with ⟨writer, hoffer, htaken, hafter⟩ | ⟨-, hnone, hsend⟩ | ⟨-, hnone, hsend⟩
    · rw [htaken]
      exact ⟨_, hafter, .offered hoffer⟩
    · rw [hnone, hsend]
      exact ⟨_, live?_onLive hlive cancel, .kept rfl fun _ ↦ rfl⟩
    · rw [hnone, hsend]
      exact ⟨live, hlive, .same⟩
  · have hnone : s.accepts id (.send other ring) = [] := if_neg fun h ↦ hother h.1
    have hkept (f : Live → Live) : (s.onLive other f).live? id = some live := live?_onLive_of_ne hlive hother f
    rw [hnone]
    refine ⟨live, ?_, .same⟩
    rw [send, if_neg hempty]
    cases s.live? other with
    | none => exact hlive
    | some gone =>
      dsimp only
      split
      · exact hkept _
      · exact hkept _
      · exact hlive

theorem tends_onLive (hlive : s.live? id = some live) (other : ConnectionId) {f : Live → Live} {depth : ℕ}
    (hf : Tends depth live [] 0 (f live)) :
    ∃ after, (s.onLive other f).live? id = some after ∧ Tends depth live [] 0 after := by
  by_cases hother : other = id
  · subst hother
    exact ⟨f live, live?_onLive hlive f, hf⟩
  · exact ⟨live, live?_onLive_of_ne hlive hother f, .same⟩

theorem tends_finishRing (hlive : s.live? id = some live) (other : ConnectionId) :
    ∃ after, (s.finishRing other).live? id = some after ∧
      Tends s.settings.sendQueueDepth live [] (s.counts id (.finishRing other)) after := by
  by_cases hother : other = id
  · subst hother
    simp only [finishRing, counts, if_true, hlive, Option.bind_some]
    cases hfinish : live.writer.finish? with
    | none => exact ⟨live, hlive, .same⟩
    | some finished => exact ⟨_, live?_onLive hlive _, .finished hfinish⟩
  · have hnone : s.counts id (.finishRing other) = 0 := if_neg hother
    rw [hnone, finishRing]
    split
    · exact ⟨live, live?_onLive_of_ne hlive hother _, .same⟩
    · exact ⟨live, hlive, .same⟩

/-- Only its release ends a connection, and its writer goes on by one step at most. -/
theorem tends_perform (hlive : s.live? id = some live) {c : Call} (hstays : c ≠ .release id) :
    ∃ after, (s.perform c).live? id = some after ∧
      Tends s.settings.sendQueueDepth live (s.accepts id c) (s.counts id c) after := by
  have hkept {t : Server} (hsame : t.live? id = some live) :
      ∃ after, t.live? id = some after ∧ Tends s.settings.sendQueueDepth live [] 0 after :=
    ⟨live, hsame, .same⟩
  cases c with
  | accept address => exact hkept (live?_accept hlive address)
  | release other => exact hkept (live?_release_of_ne hlive fun hsame ↦ hstays (hsame ▸ rfl))
  | disconnect other => exact tends_onLive hlive other (.kept rfl fun _ ↦ rfl)
  | shutdown => exact ⟨_, live?_shutdown hlive, .kept rfl fun _ ↦ rfl⟩
  | pollConnections max => exact hkept hlive
  | pollReceives => exact hkept hlive
  | giveBack e =>
    simp only [perform, giveBack]
    split <;> exact hkept hlive
  | send other ring => exact tends_send hlive other ring
  | prepareRead other =>
    simp only [perform, prepareRead, receiveBuffer]
    cases s.spare with
    | nil => exact tends_onLive hlive other (.kept rfl fun h ↦ h)
    | cons buffer spare =>
      have hlive : Server.live? { s with spare } id = some live := hlive
      exact tends_onLive hlive other (.kept rfl fun h ↦ h)
  | receive other data =>
    simp only [perform, receive]
    cases s.live? other with
    | none => exact hkept hlive
    | some _ => exact tends_onLive hlive other (.kept rfl fun h ↦ h)
  | endRead other failed =>
    cases failed <;> exact tends_onLive hlive other (.kept rfl fun _ ↦ rfl)
  | takeRing other => exact tends_onLive hlive other .took
  | writeSome other n => exact tends_onLive hlive other (.wrote n)
  | finishRing other => exact tends_finishRing hlive other
  | endWrite other failed => cases failed <;> exact tends_onLive hlive other .ended

structure Keeps (depth : ℕ) (live : Live) (accepted : List Ring) (counted : ℕ) : Prop where
  carries : live.writer.Carries accepted counted
  bounded : live.writer.queue.length ≤ max depth 1
  ended : live.writer.sending = .stopped → live.cancelled

theorem Keeps.tend {depth counted sent : ℕ} {accepted rings : List Ring} {after : Live}
    (h : Keeps depth live accepted counted) (htends : Tends depth live rings sent after)
    (hrings : ∀ ring ∈ rings, ring.Valid) : Keeps depth after (accepted ++ rings) (counted + sent) := by
  obtain ⟨hcarries, hbounded, hended⟩ := h
  have hgoes {writer : Writer} {sent : ℕ} (hcarries : writer.Carries accepted (counted + sent))
      (hon : live.writer.GoesOn writer) : Keeps depth { live with writer } (accepted ++ []) (counted + sent) := by
    rw [List.append_nil]
    exact ⟨hcarries, Nat.le_trans hon.queue hbounded, fun hstopped ↦ hended (hon.stopped hstopped)⟩
  cases htends with
  | kept hwriter hcancelled =>
    rw [List.append_nil]
    rw [← hwriter] at hcarries hbounded hended
    exact ⟨hcarries, hbounded, fun hstopped ↦ hcancelled (hended hstopped)⟩
  | @offered ring writer hoffer =>
    obtain ⟨-, hroom, rfl⟩ := Writer.offer_eq_taken hoffer
    refine ⟨hcarries.offer (hrings ring (.head _)) hoffer, ?_, hended⟩
    rw [List.length_append]
    exact hroom
  | took => exact hgoes hcarries.take (Writer.goesOn_take _)
  | wrote n => exact hgoes (hcarries.write n) (Writer.goesOn_write _ n)
  | finished hfinish =>
    refine hgoes (hcarries.finish hfinish) ?_
    obtain ⟨ring, -, -, rfl⟩ := Writer.finish?_eq_some hfinish
    exact ⟨Nat.le_refl _, fun hstopped ↦ nomatch hstopped⟩
  | ended =>
    rw [List.append_nil]
    exact ⟨hcarries.stop, hbounded, fun _ ↦ rfl⟩

/-! ### The others -/

/-- The settings stay, and to the bytes sent are added as many as were counted. -/
structure Adds (s : Server) (sent : ℕ) (next : Server) : Prop where
  settings : next.settings = s.settings
  bytesSent : next.metrics.bytesSent = s.metrics.bytesSent + .ofNat sent

theorem adds_zero {next : Server} (hsettings : next.settings = s.settings)
    (hsent : next.metrics.bytesSent = s.metrics.bytesSent) : s.Adds 0 next := by
  refine ⟨hsettings, ?_⟩
  rw [hsent]
  exact (UInt64.add_zero _).symm

theorem settings_onLive (s : Server) (id : ConnectionId) (f : Live → Live) : (s.onLive id f).settings = s.settings := by
  rw [onLive]
  split <;> rfl

theorem metrics_onLive (s : Server) (id : ConnectionId) (f : Live → Live) : (s.onLive id f).metrics = s.metrics := by
  rw [onLive]
  split <;> rfl

theorem adds_onLive (s : Server) (id : ConnectionId) (f : Live → Live) : s.Adds 0 (s.onLive id f) :=
  adds_zero (settings_onLive s id f) (congrArg Metrics.bytesSent (metrics_onLive s id f))

theorem adds_accept (address : SocketAddress) : s.Adds 0 (s.accept address) := by
  rw [accept]
  split
  · next hjoins =>
    obtain ⟨i, generation, -, -, -, rfl⟩ := exists_of_admit? hjoins
    exact adds_zero rfl rfl
  · exact adds_zero rfl rfl

theorem adds_send (id : ConnectionId) (ring : Ring) : s.Adds 0 (s.send id ring) := by
  rw [send]
  split
  · exact adds_zero rfl rfl
  cases s.live? id with
  | none => exact adds_zero rfl rfl
  | some live =>
    dsimp only
    split
    · exact adds_zero (settings_onLive s id _) rfl
    · exact adds_zero (settings_onLive s id _) rfl
    · exact adds_zero rfl rfl

theorem adds_finishRing (id : ConnectionId) : s.Adds (s.counts id (.finishRing id)) (s.finishRing id) := by
  simp only [counts, finishRing, if_true]
  cases (s.live? id).bind (·.writer.finish?) with
  | none => exact adds_zero rfl rfl
  | some finished => exact ⟨settings_onLive s id _, rfl⟩

theorem adds_perform (c : Call) :
    ∃ id, s.Adds (s.counts id c) (s.perform c) ∧ ∀ other ≠ id, s.counts other c = 0 := by
  by_cases hfinish : ∃ id, c = .finishRing id
  · obtain ⟨id, rfl⟩ := hfinish
    exact ⟨id, adds_finishRing id, fun other hother ↦ if_neg hother.symm⟩
  have hnone (id : ConnectionId) : s.counts id c = 0 := by
    cases c with
    | finishRing other => exact absurd ⟨other, rfl⟩ hfinish
    | _ => rfl
  refine ⟨⟨0⟩, ?_, fun other _ ↦ hnone other⟩
  rw [hnone]
  have hfailed (t : Server) (hadds : s.Adds 0 t) (failed : Bool) :
      s.Adds 0 (if failed then { t with metrics := t.metrics.onIoError } else t) := by
    cases failed with
    | false => exact hadds
    | true => exact ⟨hadds.settings, hadds.bytesSent⟩
  cases c with
  | accept address => exact adds_accept address
  | release id =>
    simp only [perform, release]
    split <;> exact adds_zero rfl rfl
  | giveBack e =>
    simp only [perform, giveBack]
    split <;> exact adds_zero rfl rfl
  | send id ring => exact adds_send id ring
  | prepareRead id =>
    simp only [perform, prepareRead, receiveBuffer]
    cases s.spare <;> exact adds_zero (settings_onLive _ id _) (congrArg Metrics.bytesSent (metrics_onLive _ id _))
  | receive id data =>
    simp only [perform, receive]
    split
    · exact adds_zero rfl rfl
    · have hadds := s.adds_onLive id fun live ↦ { live with reading := [] }
      exact ⟨hadds.settings, hadds.bytesSent⟩
  | endRead id failed => exact hfailed _ (adds_onLive s id _) failed
  | endWrite id failed => exact hfailed _ (adds_onLive s id _) failed
  | finishRing id => exact absurd ⟨id, rfl⟩ hfinish
  | disconnect id => exact adds_onLive s id _
  | takeRing id => exact adds_onLive s id _
  | writeSome id n => exact adds_onLive s id _
  | shutdown | pollConnections | pollReceives => exact adds_zero rfl rfl

def writers (s : Server) : List (Option Writer) := s.slots.map fun slot ↦ slot.live.map (·.writer)

theorem writers_onLive (id : ConnectionId) {f : Live → Live} (hf : ∀ live, (f live).writer = live.writer) :
    (s.onLive id f).writers = s.writers := by
  rw [onLive]
  cases hslot : s.slotOf? id with
  | none => rfl
  | some slot =>
    obtain ⟨hlt, hat⟩ := List.getElem?_eq_some_iff.1 (slotOf?_eq_some.1 hslot).1
    have hsame : (slot.live.map f).map (·.writer) = slot.live.map (·.writer) := by
      simp only [Option.map_map, Function.comp_def, hf]
    simp only [writers, setSlot, List.map_set, hsame]
    rw [← List.map_set, ← hat, List.set_getElem_self]

theorem writers_of_refused (hrefused : s.accepts id (.send id ring) = []) : (s.send id ring).writers = s.writers := by
  by_cases hempty : ring.isEmpty
  · rw [send, if_pos hempty]
  cases hlive : s.live? id with
  | none =>
    rw [send, if_neg hempty, hlive]
    rfl
  | some live =>
    rcases send_cases hlive hempty with ⟨writer, -, htaken, -⟩ | ⟨-, -, hsend⟩ | ⟨-, -, hsend⟩
    · rw [htaken] at hrefused
      cases hrefused
    · rw [hsend]
      exact writers_onLive id fun _ ↦ rfl
    · rw [hsend]
      rfl

/-! ### Any calls -/

/-- A server with the rings that the writer of one connection was given so far, and the bytes that it has counted. -/
structure Account where
  server : Server
  accepted : List Ring
  counted : ℕ

namespace Account

def start (s : Server) : Account := ⟨s, [], 0⟩

def step (id : ConnectionId) (a : Account) (c : Call) : Account where
  server := a.server.perform c
  accepted := a.accepted ++ a.server.accepts id c
  counted := a.counted + a.server.counts id c

def run (id : ConnectionId) (a : Account) (calls : List Call) : Account := calls.foldl (step id) a

variable {a : Account} {depth : ℕ}

structure Sound (id : ConnectionId) (depth : ℕ) (a : Account) : Prop where
  depth_eq : a.server.settings.sendQueueDepth = depth
  kept : ∃ live, a.server.live? id = some live ∧ Keeps depth live a.accepted a.counted

theorem Sound.step (h : a.Sound id depth) {c : Call} (hstays : c ≠ .release id)
    (hrings : ∀ ring, c = .send id ring → ring.Valid) : (a.step id c).Sound id depth := by
  obtain ⟨hdepth, live, hlive, hkeeps⟩ := h
  obtain ⟨_, hadds, -⟩ := a.server.adds_perform c
  obtain ⟨after, hafter, htends⟩ := tends_perform hlive hstays
  refine ⟨?_, after, hafter, ?_⟩
  · rw [← hdepth, ← hadds.settings]
    rfl
  · rw [hdepth] at htends
    refine hkeeps.tend htends fun ring hring ↦ ?_
    cases c with
    | send other ring' =>
      simp only [accepts] at hring
      split at hring
      · next hid =>
        obtain ⟨rfl, -⟩ := hid
        obtain rfl := List.mem_singleton.1 hring
        exact hrings ring rfl
      · cases hring
    | _ => cases hring

theorem Sound.run (h : a.Sound id depth) {calls : List Call} (hstays : .release id ∉ calls)
    (hrings : ∀ ring, .send id ring ∈ calls → ring.Valid) : (a.run id calls).Sound id depth := by
  induction calls generalizing a with
  | nil => exact h
  | cons c calls ih =>
    rw [List.mem_cons, not_or] at hstays
    refine ih (h.step (Ne.symm hstays.1) ?_) hstays.2 fun ring hring ↦ hrings ring (.tail c hring)
    rintro ring rfl
    exact hrings ring (.head calls)

end Account

/-- What went out on a connection that was given rings and has counted bytes. -/
structure Outgoing (s : Server) (id : ConnectionId) (accepted : List Ring) (counted : ℕ) (live : Live) : Prop where
  listed : s.live? id = some live
  inOrder : live.writer.written <+: contents accepted
  whole : live.writer.sending = .idle → live.writer.queue = [] →
    live.writer.written = contents accepted ∧ counted = live.writer.written.length
  counted_le : counted ≤ live.writer.written.length
  drains : ∀ ring sent (ns : List ℕ), live.writer.sending = .busy ring sent → (∀ n ∈ ns, 0 < n) →
    ring.size ≤ ns.length → (ns.foldl Writer.write live.writer).finish? =
      some (sent + ring.size, ⟨live.writer.queue, .idle, live.writer.written ++ ring.toList⟩)
  taken : ∀ ring : Ring, ¬ ring.isEmpty → live.writer.sending ≠ .stopped →
    live.writer.queue.length < max s.settings.sendQueueDepth 1 → s.accepts id (.send id ring) = [ring]
  full : ∀ ring : Ring, ¬ ring.isEmpty → max s.settings.sendQueueDepth 1 ≤ live.writer.queue.length →
    s.accepts id (.send id ring) = [] ∧ (s.send id ring).live? id = some (cancel live)

theorem Keeps.outgoing {accepted : List Ring} {counted : ℕ} (h : Keeps s.settings.sendQueueDepth live accepted counted)
    (hlive : s.live? id = some live) : Outgoing s id accepted counted live where
  listed := hlive
  inOrder := h.carries.written_prefix
  whole := h.carries.whole
  counted_le := h.carries.counted_le
  drains := by
    intro ring sent ns hbusy hpos hlen
    exact h.carries.drains hbusy hpos hlen
  taken := by
    intro ring hfilled hrunning hroom
    have hoffer : (live.writer.offer s.settings.sendQueueDepth ring).1 = .taken := Writer.offer_of_room hrunning hroom
    rcases send_cases hlive hfilled with ⟨_, -, htaken, -⟩ | ⟨hrefused, -⟩ | ⟨hrefused, -⟩
    · exact htaken
    · rw [hoffer] at hrefused
      cases hrefused
    · rw [hoffer] at hrefused
      cases hrefused
  full := by
    intro ring hfilled hfull
    have hoffer : live.writer.offer s.settings.sendQueueDepth ring = _ := Writer.offer_of_full hfull
    rcases send_cases hlive hfilled with ⟨_, htaken, -⟩ | ⟨-, hnone, hsend⟩ | ⟨hstopped, hnone, hsend⟩
    · have hroom := (Writer.offer_eq_taken htaken).2.1
      omega
    · rw [hsend]
      exact ⟨hnone, live?_onLive hlive cancel⟩
    · rw [hoffer] at hstopped
      -- A writer that has ended was asked to end before, so that nothing is left to be cancelled.
      have hcancelled : live.cancelled := by
        apply h.ended
        by_contra hrunning
        rw [if_neg hrunning] at hstopped
        cases hstopped
      have hsame : cancel live = live := by rw [cancel, ← hcancelled]
      rw [hsend, hsame]
      exact ⟨hnone, hlive⟩

theorem length_slots_ofSettings {settings : ServerSettings} (hnew : ofSettings settings = .ok s) :
    s.slots.length ≤ UInt32.size := by
  obtain ⟨hvalid, _, rfl⟩ := exists_of_ofSettings hnew
  rw [List.length_replicate]
  exact Nat.le_of_lt (settings.maxConnections_lt hvalid)

theorem length_slots_perform (c : Call) : (s.perform c).slots.length = s.slots.length := by
  have hlength (s : Server) : s.slots.length = s.occupants.length := by rw [occupants, List.length_map]
  rw [hlength, hlength]
  cases s.turn_perform c with
  | joined _ htable => rw [htable, List.length_set]
  | left _ htable => rw [htable, List.length_set]
  | stayed htable => rw [htable]

theorem length_slots_run {settings : ServerSettings} {new : Server} (hnew : ofSettings settings = .ok new)
    (calls : List Call) : (calls.foldl perform new).slots.length ≤ UInt32.size := by
  suffices hsame : (calls.foldl perform new).slots.length = new.slots.length by
    rw [hsame]
    exact length_slots_ofSettings hnew
  clear hnew
  induction calls generalizing new with
  | nil => rfl
  | cons c calls ih => rw [List.foldl_cons, ih, length_slots_perform]

/-- Between its start and its release, whatever is asked of the server, what goes out on a connection is what was taken
for it, in that order. What is refused reaches no writer, and the bytes sent are those that the writers count. No server
has more slots than ids can name. -/
theorem outgoing_inOrder {address : SocketAddress} {next : Server} (hslots : s.slots.length ≤ UInt32.size)
    (hjoins : s.admit? address = some (id, next)) {calls : List Call} (hstays : .release id ∉ calls)
    (hrings : ∀ ring, .send id ring ∈ calls → ring.Valid) :
    let a := (Account.start (s.accept address)).run id calls
    (∃ live, Outgoing a.server id a.accepted a.counted live) ∧
    (∀ (settings : ServerSettings) (new : Server) (calls : List Call), ofSettings settings = .ok new →
      (calls.foldl perform new).slots.length ≤ UInt32.size) ∧
    (∀ (s : Server) (id : ConnectionId) (ring : Ring),
      s.accepts id (.send id ring) = [] → (s.send id ring).writers = s.writers) ∧
    ∀ (s : Server) (c : Call), ∃ id, (s.perform c).metrics.bytesSent = s.metrics.bytesSent + .ofNat (s.counts id c) ∧
      ∀ other ≠ id, s.counts other c = 0 := by
  intro a
  have hstart : (Account.start (s.accept address)).Sound id (s.accept address).settings.sendQueueDepth :=
    ⟨rfl, _, live?_joined hslots hjoins, .fresh, Nat.zero_le _, fun hstopped ↦ nomatch hstopped⟩
  refine ⟨?_, fun _ _ calls hnew ↦ length_slots_run hnew calls, fun _ _ _ ↦ writers_of_refused, fun s c ↦ ?_⟩
  · obtain ⟨hdepth, live, hlive, hkeeps⟩ := hstart.run hstays hrings
    rw [← hdepth] at hkeeps
    exact ⟨live, hkeeps.outgoing hlive⟩
  · obtain ⟨id, hadds, hothers⟩ := s.adds_perform c
    exact ⟨id, hadds.bytesSent, hothers⟩

def wrapped : Ring := (((Ring.ofCapacity 3).write [1, 2]).2.advance 1).write [3, 4] |>.2

theorem valid_wrapped : wrapped.Valid := by
  have hvalid := (Ring.Valid.reset (Ring.ofCapacity 3)).write [1, 2]
  exact (hvalid.advance (by decide)).1.write [3, 4]

def narrow : ServerSettings :=
  { ServerSettings.standard with address := "::", maxConnections := 1, maxConnectionsPerIp := 1, sendQueueDepth := 1 }

def lone : Server := ⟨narrow, ⟨.v6 [0, 0, 0, 0, 0, 0, 0, 0], 7777⟩, [⟨0, none⟩], [], [], [], .zero, false, false⟩

theorem ofSettings_narrow : ofSettings narrow = .ok lone := rfl

/-- The first of three rings goes out in two pieces, the second waits, and there is no room for the third. -/
theorem outgoing_inOrder_wrapped :
    let id : ConnectionId := ⟨0⟩
    let peer : SocketAddress := ⟨.v4 127 0 0 1, 9⟩
    let calls : List Call := [.send id wrapped, .takeRing id, .writeSome id 9, .send id wrapped, .writeSome id 9,
      .finishRing id, .send id wrapped]
    let a := (Account.start (lone.accept peer)).run id calls
    (lone.admit? peer).map (·.1) = some id ∧ .release id ∉ calls ∧ (∀ ring, .send id ring ∈ calls → ring.Valid) ∧
      a.accepted = [wrapped, wrapped] ∧ a.counted = 3 ∧ a.server.metrics.sendsDropped = 1 ∧
      ∃ live, Outgoing a.server id a.accepted a.counted live ∧ live.writer.written = [2, 3, 4] ∧ live.cancelled := by
  intro id peer calls a
  have hjoins : lone.admit? peer = some (id, _) := rfl
  have hstays : .release id ∉ calls := by simp [calls]
  have hrings : ∀ ring, .send id ring ∈ calls → ring.Valid := by
    intro ring hring
    suffices hsame : ring = wrapped from hsame ▸ valid_wrapped
    simpa [calls] using hring
  obtain ⟨live, h⟩ := (outgoing_inOrder (length_slots_ofSettings ofSettings_narrow) hjoins hstays hrings).1
  have hwritten : (a.server.live? id).map (fun live ↦ (live.writer.written, live.cancelled)) =
      some ([2, 3, 4], true) := by decide
  rw [h.listed, Option.map_some, Option.some_inj, Prod.mk.injEq] at hwritten
  exact ⟨rfl, hstays, hrings, by decide, by decide, by decide, live, h, hwritten⟩

end Server
end GameHost
