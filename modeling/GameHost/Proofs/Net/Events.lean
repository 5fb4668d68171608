import GameHost.Proofs.Net.Calls

namespace GameHost.Server

/-- A server with the connection events ever queued, and with those handed out so far. -/
structure History where
  server : Server
  queued : List ConnectionEvent
  polled : List ConnectionEvent

namespace History

def start (s : Server) : History := ⟨s, [], []⟩

def step (h : History) (c : Call) : History where
  server := h.server.perform c
  queued := h.queued ++ (h.server.perform c).connectionEvents.drop h.server.connectionEvents.length
  polled := h.polled ++ h.server.handsOut c

def run (h : History) (calls : List Call) : History := calls.foldl step h

variable (h : History)

def eventsOf (i : Nat) : List ConnectionEvent := h.queued.filter (·.id.slot.toNat == i)

def isLive (i : Nat) : Bool := (h.server.slots[i]?.bind (·.live)).isSome

structure Orderly (capacity : Nat) : Prop where
  conserved : h.polled ++ h.server.connectionEvents = h.queued
  placed : ∀ e ∈ h.queued, e.id.slot.toNat < capacity
  alternating : ∀ i n e, (h.eventsOf i)[n]? = some e → (e.change = .connected ↔ n % 2 = 0)
  paired : ∀ i k joined left, (h.eventsOf i)[2 * k]? = some joined → (h.eventsOf i)[2 * k + 1]? = some left →
    left.id = joined.id ∧ left.address = joined.address
  generation : ∀ i n e, (h.eventsOf i)[n]? = some e → e.id.generation.toNat = n / 2 % UInt32.size
  live : ∀ i, h.isLive i ↔ (h.eventsOf i).getLast?.map (·.change) = some .connected

end History

theorem getElem?_concat_eq_some {α : Type} {l : List α} {a b : α} {n : Nat}
    (h : (l ++ [a])[n]? = some b) : l[n]? = some b ∨ n = l.length ∧ b = a := by
  rcases Nat.lt_trichotomy n l.length with hlt | rfl | hgt
  · rw [List.getElem?_append_left hlt] at h
    exact .inl h
  · simp only [List.getElem?_concat_length, Option.some.injEq] at h
    exact .inr ⟨rfl, h.symm⟩
  · rw [List.getElem?_eq_none (by rw [List.length_append]; exact hgt)] at h
    cases h

/-- The events of a slot together with who is in it. -/
inductive Chronicle (i : UInt32) : List ConnectionEvent → UInt32 × Option SocketAddress → Prop
  | empty : Chronicle i [] (0, none)
  | joined {events : List ConnectionEvent} {generation : UInt32} (address : SocketAddress)
      (h : Chronicle i events (generation, none)) :
      Chronicle i (events ++ [⟨.ofParts i generation, address, .connected⟩]) (generation, some address)
  | left {events : List ConnectionEvent} {generation : UInt32} {address : SocketAddress}
      (h : Chronicle i events (generation, some address)) :
      Chronicle i (events ++ [⟨.ofParts i generation, address, .disconnected⟩]) (generation + 1, none)

namespace Chronicle

variable {i : UInt32} {events : List ConnectionEvent} {occupant : UInt32 × Option SocketAddress}

theorem length_eq (h : Chronicle i events occupant) :
    ∃ k, occupant.1 = .ofNat k ∧ events.length = 2 * k + occupant.2.toList.length := by
  induction h with
  | empty => exact ⟨0, rfl, rfl⟩
  | joined address h ih =>
    obtain ⟨k, hgeneration, hlength⟩ := ih
    refine ⟨k, hgeneration, ?_⟩
    simpa using hlength
  | left h ih =>
    obtain ⟨k, hgeneration, hlength⟩ := ih
    refine ⟨k + 1, ?_, ?_⟩
    · simp only at hgeneration
      rw [hgeneration, UInt32.ofNat_add]
      rfl
    · simp at hlength ⊢
      omega

theorem getLast?_eq {generation : UInt32} {address : SocketAddress}
    (h : Chronicle i events (generation, some address)) :
    events.getLast? = some ⟨.ofParts i generation, address, .connected⟩ := by
  cases h
  exact List.getLast?_concat

theorem isSome_iff (h : Chronicle i events occupant) :
    occupant.2.isSome ↔ events.getLast?.map (·.change) = some .connected := by
  cases h <;> simp

theorem event_eq (h : Chronicle i events occupant) {n : Nat} {e : ConnectionEvent}
    (hat : events[n]? = some e) :
    e.id = .ofParts i (.ofNat (n / 2)) ∧ (e.change = .connected ↔ n % 2 = 0) := by
  induction h with
  | empty => cases hat
  | joined address h ih =>
    obtain ⟨k, hgeneration, hlength⟩ := h.length_eq
    simp only [Option.toList_none, List.length_nil] at hgeneration hlength
    rcases getElem?_concat_eq_some hat with hold | ⟨rfl, rfl⟩
    · exact ih hold
    · have hhalf : 2 * k / 2 = k := by omega
      simp [hgeneration, hlength, hhalf]
  | left h ih =>
    obtain ⟨k, hgeneration, hlength⟩ := h.length_eq
    simp only [Option.toList_some, List.length_singleton] at hgeneration hlength
    rcases getElem?_concat_eq_some hat with hold | ⟨rfl, rfl⟩
    · exact ih hold
    · have hhalf : (2 * k + 1) / 2 = k := by omega
      have hodd : (2 * k + 1) % 2 = 1 := by omega
      simp [hgeneration, hlength, hhalf, hodd]

theorem address_eq (h : Chronicle i events occupant) {k : Nat} {joined left : ConnectionEvent}
    (hjoined : events[2 * k]? = some joined) (hleft : events[2 * k + 1]? = some left) :
    left.address = joined.address := by
  induction h with
  | empty => cases hleft
  | @joined events _ _ h ih =>
    obtain ⟨j, -, hlength⟩ := h.length_eq
    simp only [Option.toList_none, List.length_nil] at hlength
    rcases getElem?_concat_eq_some hleft with hold | ⟨hlast, -⟩
    · have hlt := (List.getElem?_eq_some_iff.1 hold).1
      rw [List.getElem?_append_left (by omega)] at hjoined
      exact ih hjoined hold
    · omega
  | @left events _ _ h ih =>
    rcases getElem?_concat_eq_some hleft with hold | ⟨hlast, rfl⟩
    · have hlt := (List.getElem?_eq_some_iff.1 hold).1
      rw [List.getElem?_append_left (by omega)] at hjoined
      exact ih hjoined hold
    · have hbefore := h.getLast?_eq
      rw [List.getLast?_eq_getElem?, ← hlast] at hbefore
      rw [List.getElem?_append_left (by omega), ← Nat.add_sub_cancel (2 * k) 1, hbefore] at hjoined
      cases hjoined
      rfl

theorem countP_connected (h : Chronicle i events occupant) :
    2 * events.countP (·.change = .connected) = events.length + occupant.2.toList.length := by
  induction h with
  | empty => rfl
  | joined address h ih =>
    simp at ih ⊢
    omega
  | left h ih =>
    simp at ih ⊢
    omega

theorem filter_eq {generation : UInt32} {address : SocketAddress}
    (h : Chronicle i events (generation, some address))
    (hfew : events.countP (·.change = .connected) < UInt32.size) :
    events.filter (·.id == .ofParts i generation) = [⟨.ofParts i generation, address, .connected⟩] := by
  obtain ⟨k, hgeneration, hlength⟩ := h.length_eq
  have hcount := h.countP_connected
  simp only [Option.toList_some, List.length_singleton] at hgeneration hlength hcount
  cases h with
  | @joined before _ _ h =>
    have hbefore : before.filter (·.id == .ofParts i generation) = [] := by
      rw [List.filter_eq_nil_iff]
      intro e he hsame
      obtain ⟨n, hn⟩ := List.getElem?_of_mem he
      have hlt := (List.getElem?_eq_some_iff.1 hn).1
      simp only [List.length_append, List.length_singleton] at hlength hcount
      rw [(h.event_eq hn).1, hgeneration, beq_iff_eq, ConnectionId.ofParts_inj] at hsame
      have hpair := congrArg UInt32.toNat hsame.2
      rw [UInt32.toNat_ofNat_of_lt' (by omega : n / 2 < UInt32.size),
        UInt32.toNat_ofNat_of_lt' (by omega : k < UInt32.size)] at hpair
      omega
    rw [List.filter_append, hbefore, List.filter_singleton, beq_self_eq_true, Bool.cond_true, List.nil_append]

end Chronicle

namespace History

/-- What every call keeps up. -/
structure Faithful (capacity : Nat) (h : History) : Prop where
  conserved : h.polled ++ h.server.connectionEvents = h.queued
  capacity_eq : h.server.occupants.length = capacity
  placed : ∀ e ∈ h.queued, e.id.slot.toNat < capacity
  chronicle : ∀ i occupant, h.server.occupants[i]? = some occupant →
    Chronicle (.ofNat i) (h.eventsOf i) occupant

variable {h : History} {capacity : Nat}

theorem Faithful.grow (hf : h.Faithful capacity) {c : Call} {i : Nat} {e : ConnectionEvent}
    {before after : UInt32 × Option SocketAddress} (hslot : e.id.slot.toNat = i)
    (hat : h.server.occupants[i]? = some before)
    (hgrow : ∀ events, Chronicle (.ofNat i) events before → Chronicle (.ofNat i) (events ++ [e]) after)
    (htable : (h.server.perform c).occupants = h.server.occupants.set i after)
    (hqueue : (h.server.perform c).connectionEvents = h.server.connectionEvents ++ [e])
    (hout : h.server.handsOut c = []) : (h.step c).Faithful capacity := by
  have hqueued : (h.step c).queued = h.queued ++ [e] := by
    simp only [step, hqueue, List.drop_left]
  have hlt := (List.getElem?_eq_some_iff.1 hat).1
  constructor
  · rw [hqueued, ← hf.conserved]
    simp only [step, hqueue, hout, List.append_nil, List.append_assoc]
  · simp only [step, htable, List.length_set, hf.capacity_eq]
  · intro e' he'
    rw [hqueued, List.mem_append, List.mem_singleton] at he'
    rcases he' with hold | rfl
    · exact hf.placed e' hold
    · rw [hslot, ← hf.capacity_eq]
      exact hlt
  · intro j occupant hj
    simp only [step, htable] at hj
    rw [eventsOf, hqueued, List.filter_append]
    by_cases hji : i = j
    · subst hji
      rw [List.getElem?_set_self hlt, Option.some.injEq] at hj
      subst hj
      simp only [List.filter_singleton, hslot, BEq.rfl, Bool.cond_true]
      exact hgrow _ (hf.chronicle i before hat)
    · rw [List.getElem?_set_ne hji] at hj
      simp only [List.filter_singleton, hslot, beq_eq_false_iff_ne.2 hji, Bool.cond_false, List.append_nil]
      exact hf.chronicle j occupant hj

theorem Faithful.stay (hf : h.Faithful capacity) {out : List ConnectionEvent} {next : Server}
    (hstays : h.server.Stays out next) : Faithful capacity ⟨next, h.queued, h.polled ++ out⟩ := by
  constructor
  · rw [← hf.conserved, ← hstays.queue, ← List.append_assoc]
  · exact hstays.table ▸ hf.capacity_eq
  · exact hf.placed
  · intro i occupant hat
    exact hf.chronicle i occupant (hstays.table ▸ hat)

theorem Faithful.step (hf : h.Faithful capacity) (hcapacity : capacity ≤ UInt32.size) (c : Call) :
    (h.step c).Faithful capacity := by
  cases h.server.turn_perform c with
  | @joined i generation address hfree htable hqueue hout =>
    have hlt := (List.getElem?_eq_some_iff.1 hfree).1
    rw [hf.capacity_eq] at hlt
    refine hf.grow ?_ hfree (fun _ hchronicle ↦ .joined address hchronicle) htable hqueue hout
    rw [ConnectionId.slot_ofParts]
    exact UInt32.toNat_ofNat_of_lt' (Nat.lt_of_lt_of_le hlt hcapacity)
  | @left id address hlive htable hqueue hout =>
    refine hf.grow rfl hlive (fun events hchronicle ↦ ?_) htable hqueue hout
    rw [UInt32.ofNat_toNat] at hchronicle ⊢
    have hgrown := hchronicle.left
    rwa [ConnectionId.ofParts_slot_generation] at hgrown
  | stayed htable hqueue =>
    have hnone : (h.server.perform c).connectionEvents.drop h.server.connectionEvents.length = [] := by
      rw [List.drop_eq_nil_iff, ← hqueue]
      simp
    have hstep : h.step c = ⟨h.server.perform c, h.queued, h.polled ++ h.server.handsOut c⟩ := by
      simp only [History.step, hnone, List.append_nil]
    rw [hstep]
    exact hf.stay ⟨htable, hqueue⟩

theorem Faithful.run (hf : h.Faithful capacity) (hcapacity : capacity ≤ UInt32.size) (calls : List Call) :
    (h.run calls).Faithful capacity := by
  induction calls generalizing h with
  | nil => exact hf
  | cons c calls ih => exact ih (hf.step hcapacity c)

theorem Faithful.start {settings : ServerSettings} {s : Server} (hnew : s.IsNew settings) :
    (start s).Faithful settings.maxConnections where
  conserved := hnew.connectionEvents
  capacity_eq := by simp [History.start, occupants, hnew.slots]
  placed := by simp [History.start]
  chronicle := by
    intro i occupant hat
    simp only [History.start, occupants, hnew.slots, List.map_replicate, List.getElem?_replicate] at hat
    split at hat
    · cases hat
      exact .empty
    · cases hat

theorem Faithful.chronicle_isLive (hf : h.Faithful capacity) (i : Nat) :
    ∃ occupant, Chronicle (.ofNat i) (h.eventsOf i) occupant ∧ h.isLive i = occupant.2.isSome := by
  simp only [isLive]
  cases hat : h.server.slots[i]? with
  | none =>
    have hnone : h.eventsOf i = [] := by
      rw [eventsOf, List.filter_eq_nil_iff]
      intro e he
      have hplaced := hf.placed e he
      rw [← hf.capacity_eq, occupants, List.length_map] at hplaced
      rw [List.getElem?_eq_none_iff] at hat
      rw [beq_iff_eq]
      omega
    rw [hnone]
    exact ⟨_, .empty, rfl⟩
  | some slot =>
    refine ⟨slot.occupant, hf.chronicle i _ ?_, ?_⟩
    · rw [getElem?_occupants, hat, Option.map_some]
    · simp [TableSlot.occupant]

def joinedIn (h : History) (i : Nat) : Nat := (h.eventsOf i).countP (·.change = .connected)

theorem Faithful.queued_of_connected (hf : h.Faithful capacity) {id : ConnectionId}
    (hfew : h.joinedIn id.slot.toNat < UInt32.size) (hid : h.server.isConnected id) :
    ∃ e, e.change = .connected ∧ h.queued.filter (·.id == id) = [e] := by
  rw [isConnected, Option.isSome_iff_exists] at hid
  obtain ⟨live, hlive⟩ := hid
  have hchronicle := hf.chronicle _ _ (occupant_of_live hlive)
  have hevents := hchronicle.filter_eq hfew
  rw [UInt32.ofNat_toNat, ConnectionId.ofParts_slot_generation, eventsOf, List.filter_filter] at hevents
  refine ⟨⟨id, live.address, .connected⟩, rfl, ?_⟩
  rw [← hevents]
  apply List.filter_congr
  intro e _
  by_cases hsame : e.id = id
  · simp [hsame]
  · simp [hsame]

theorem Faithful.orderly (hf : h.Faithful capacity) : h.Orderly capacity where
  conserved := hf.conserved
  placed := hf.placed
  alternating := by
    intro i n e hat
    obtain ⟨_, hchronicle, -⟩ := hf.chronicle_isLive i
    exact (hchronicle.event_eq hat).2
  paired := by
    intro i k joined left hjoined hleft
    obtain ⟨_, hchronicle, -⟩ := hf.chronicle_isLive i
    have hfirst : 2 * k / 2 = k := by omega
    have hsecond : (2 * k + 1) / 2 = k := by omega
    refine ⟨?_, hchronicle.address_eq hjoined hleft⟩
    rw [(hchronicle.event_eq hleft).1, (hchronicle.event_eq hjoined).1, hfirst, hsecond]
  generation := by
    intro i n e hat
    obtain ⟨_, hchronicle, -⟩ := hf.chronicle_isLive i
    rw [(hchronicle.event_eq hat).1, ConnectionId.generation_ofParts, UInt32.toNat_ofNat']
  live := by
    intro i
    obtain ⟨_, hchronicle, hlive⟩ := hf.chronicle_isLive i
    rw [hlive]
    exact hchronicle.isSome_iff

end History

/-- Valid settings make a server, and whatever is asked of it, in whatever order, its connection events are
orderly. -/
theorem connectionEvents_orderly {settings : ServerSettings} (hvalid : settings.violations = []) :
    ∃ s, ofSettings settings = .ok s ∧
      ∀ calls, ((History.start s).run calls).Orderly settings.maxConnections := by
  obtain ⟨s, hs, hnew⟩ := isNew_of_valid hvalid
  refine ⟨s, hs, fun calls ↦ ?_⟩
  have hstart := History.Faithful.start hnew
  exact (hstart.run (Nat.le_of_lt (settings.maxConnections_lt hvalid)) calls).orderly

theorem connectionEvents_orderly_standard : ServerSettings.standard.violations = [] ∧
    ∃ s, ofSettings .standard = .ok s ∧
      ∀ calls, ((History.start s).run calls).Orderly ServerSettings.standard.maxConnections :=
  ⟨by decide, connectionEvents_orderly (by decide)⟩

example : (Server.create "::" 0 1).map (fun s ↦
    ((History.start s).run [.accept ⟨.v6 [], 1⟩, .release ⟨0⟩, .release ⟨0⟩, .accept ⟨.v6 [], 2⟩]).queued.map
      fun e ↦ (e.id.generation, e.address.port, e.change)) =
    .ok [(0, 1, .connected), (0, 1, .disconnected), (1, 2, .connected)] := rfl

end GameHost.Server
