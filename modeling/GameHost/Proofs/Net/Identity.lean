import GameHost.Proofs.Net.Calls

namespace GameHost

namespace Server

/-- What is asked about an id has no effect, but that a ring for it counts as dropped. -/
structure Ignores (s : Server) (id : ConnectionId) : Prop where
  isConnected : s.isConnected id = false
  disconnect : s.disconnect id = s
  release : s.release id = s
  send_empty : ∀ ring : Ring, ring.isEmpty → s.send id ring = s
  send : ∀ ring : Ring, ¬ ring.isEmpty → s.send id ring = { s with metrics := s.metrics.onSendDropped }

variable {s : Server}

theorem onLive_of_vacant {id : ConnectionId} (hid : s.live? id = none) (f : Live → Live) :
    s.onLive id f = s := by
  rw [onLive]
  cases hslot : s.slotOf? id with
  | none => rfl
  | some slot =>
    have hnone : slot.live = none := by rwa [live?, hslot, Option.bind_some] at hid
    obtain ⟨hlt, hat⟩ := List.getElem?_eq_some_iff.1 (slotOf?_eq_some.1 hslot).1
    have hsame : { slot with live := slot.live.map f } = s.slots[id.slot.toNat] := by
      rw [hat, hnone, Option.map_none, ← hnone]
    simp only [hsame, setSlot, List.set_getElem_self]

theorem ignores_of_not_connected {id : ConnectionId} (hid : s.isConnected id = false) : s.Ignores id := by
  have hnone : s.live? id = none := by
    simpa only [isConnected, Option.isSome_eq_false_iff, Option.isNone_iff_eq_none] using hid
  constructor
  · exact hid
  · exact onLive_of_vacant hnone cancel
  · rw [release, hnone]
  · intro ring hempty
    rw [send, if_pos hempty]
  · intro ring hfilled
    rw [send, if_neg hfilled, hnone]

/-- The id of the `j`-th connection, counted from 0, of the slot at place `i`. -/
def idAt (i j : Nat) : ConnectionId := .ofParts (.ofNat i) (.ofNat j)

theorem idAt_inj {i i' j j' : Nat} :
    idAt i j = idAt i' j' ↔ i % UInt32.size = i' % UInt32.size ∧ j % UInt32.size = j' % UInt32.size := by
  simp only [idAt, ConnectionId.ofParts_inj, ← UInt32.toNat_inj, UInt32.toNat_ofNat', UInt32.size]

theorem slot_idAt {i : Nat} (hi : i < UInt32.size) (j : Nat) : (idAt i j).slot.toNat = i := by
  rw [idAt, ConnectionId.slot_ofParts, UInt32.toNat_ofNat_of_lt' hi]

theorem idAt_slot {id : ConnectionId} {k : Nat} (h : id.generation = .ofNat k) : idAt id.slot.toNat k = id := by
  rw [idAt, UInt32.ofNat_toNat, ← h, ConnectionId.ofParts_slot_generation]

theorem getLast?_ids (i k : Nat) (address : SocketAddress) :
    ((List.range (k + (some address).toList.length)).map (idAt i)).getLast? = some (idAt i k) := by
  rw [Option.toList_some, List.length_singleton, List.range_succ, List.map_append, List.map_singleton,
    List.getLast?_concat]

def seats (s : Server) : Call → List (Nat × ConnectionId)
  | .accept address =>
    ((s.admit? address).bind fun (id, _) ↦ (s.slots.findIdx? (·.live.isNone)).map (·, id)).toList
  | _ => []

def clears (s : Server) : Call → List ConnectionId
  | .release id => if s.isConnected id then [id] else []
  | _ => []

/-- A server with the connections that were let in so far, each with its place in the table, and those that
were released. -/
structure Register where
  server : Server
  admitted : List (Nat × ConnectionId)
  released : List ConnectionId

namespace Register

def start (s : Server) : Register := ⟨s, [], []⟩

def step (r : Register) (c : Call) : Register where
  server := r.server.perform c
  admitted := r.admitted ++ r.server.seats c
  released := r.released ++ r.server.clears c

def run (r : Register) (calls : List Call) : Register := calls.foldl step r

variable (r : Register)

def idsOf (i : Nat) : List ConnectionId := (r.admitted.filter (·.1 == i)).map (·.2)

def releasedOf (i : Nat) : List ConnectionId := r.released.filter (·.slot.toNat == i)

def IsCurrent (id : ConnectionId) : Prop :=
  ∃ i live, r.server.slots[i]?.bind (·.live) = some live ∧ (r.idsOf i).getLast? = some id

structure Unmistakable : Prop where
  again : ∀ i j k a b, (r.idsOf i)[j]? = some a → (r.idsOf i)[k]? = some b →
    (a = b ↔ j % UInt32.size = k % UInt32.size)
  apart : ∀ i i' a b, i ≠ i' → a ∈ r.idsOf i → b ∈ r.idsOf i' → a ≠ b
  connected : ∀ id, r.server.isConnected id ↔ r.IsCurrent id
  stray : ∀ id, ¬ r.IsCurrent id → r.server.Ignores id
  stale : (∀ i, (r.idsOf i).length < UInt32.size) → ∀ id ∈ r.released,
    ¬ r.IsCurrent id ∧ r.server.Ignores id

/-- The connections of the slot at a place, as its generation counts them. -/
def Tenants (i : Nat) (occupant : UInt32 × Option SocketAddress) : Prop :=
  ∃ k, occupant.1 = .ofNat k ∧ r.releasedOf i = (List.range k).map (idAt i) ∧
    r.idsOf i = (List.range (k + occupant.2.toList.length)).map (idAt i)

structure Orderly (capacity : Nat) (r : Register) : Prop where
  capacity_eq : r.server.occupants.length = capacity
  admitted_lt : ∀ p ∈ r.admitted, p.1 < capacity
  released_lt : ∀ id ∈ r.released, id.slot.toNat < capacity
  tenants : ∀ i occupant, r.server.occupants[i]? = some occupant → r.Tenants i occupant

variable {r : Register} {capacity : Nat}

theorem Orderly.admit (hr : r.Orderly capacity) {c : Call} {i : Nat} {generation : UInt32}
    {address : SocketAddress} (hfree : r.server.occupants[i]? = some (generation, none))
    (htable : (r.server.perform c).occupants = r.server.occupants.set i (generation, some address))
    (hseats : r.server.seats c = [(i, .ofParts (.ofNat i) generation)]) (hclears : r.server.clears c = []) :
    (r.step c).Orderly capacity := by
  have hlt := (List.getElem?_eq_some_iff.1 hfree).1
  constructor
  · simp only [step, htable, List.length_set, hr.capacity_eq]
  · intro p hp
    simp only [step, hseats, List.mem_append, List.mem_singleton] at hp
    rcases hp with hp | rfl
    · exact hr.admitted_lt p hp
    · rwa [hr.capacity_eq] at hlt
  · simpa only [step, hclears, List.append_nil] using hr.released_lt
  · intro j occupant hj
    simp only [step, htable] at hj
    simp only [Tenants, releasedOf, idsOf, step, hseats, hclears, List.append_nil, List.filter_append,
      List.map_append]
    by_cases hji : i = j
    · subst hji
      rw [List.getElem?_set_self hlt, Option.some.injEq] at hj
      subst hj
      obtain ⟨k, hgeneration, hreleased, hids⟩ := hr.tenants i _ hfree
      refine ⟨k, hgeneration, hreleased, ?_⟩
      simp only [Option.toList_none, List.length_nil, Nat.add_zero] at hids
      rw [← idsOf, hids, Option.toList_some, List.length_singleton, List.range_succ, List.map_append]
      simp only at hgeneration
      simp [hgeneration, idAt]
    · rw [List.getElem?_set_ne hji] at hj
      simpa [hji, Tenants, releasedOf, idsOf] using hr.tenants j occupant hj

theorem Orderly.clear (hr : r.Orderly capacity) {id : ConnectionId}
    {address : SocketAddress} (hlive : r.server.occupants[id.slot.toNat]? = some (id.generation, some address))
    {c : Call} (htable : (r.server.perform c).occupants =
      r.server.occupants.set id.slot.toNat (id.generation + 1, none))
    (hseats : r.server.seats c = []) (hclears : r.server.clears c = [id]) : (r.step c).Orderly capacity := by
  have hlt := (List.getElem?_eq_some_iff.1 hlive).1
  constructor
  · simp only [step, htable, List.length_set, hr.capacity_eq]
  · simpa only [step, hseats, List.append_nil] using hr.admitted_lt
  · intro gone hgone
    simp only [step, hclears, List.mem_append, List.mem_singleton] at hgone
    rcases hgone with hgone | rfl
    · exact hr.released_lt gone hgone
    · rwa [hr.capacity_eq] at hlt
  · intro j occupant hj
    simp only [step, htable] at hj
    simp only [Tenants, releasedOf, idsOf, step, hseats, hclears, List.append_nil, List.filter_append]
    by_cases hji : id.slot.toNat = j
    · subst hji
      rw [List.getElem?_set_self hlt, Option.some.injEq] at hj
      subst hj
      obtain ⟨k, hgeneration, hreleased, hids⟩ := hr.tenants _ _ hlive
      refine ⟨k + 1, ?_, ?_, hids⟩
      · simp only at hgeneration ⊢
        rw [hgeneration, UInt32.ofNat_add]
        rfl
      · rw [← releasedOf, hreleased, List.range_succ, List.map_append, List.map_singleton, idAt_slot hgeneration]
        simp
    · rw [List.getElem?_set_ne hji] at hj
      simpa [hji, Tenants, releasedOf, idsOf] using hr.tenants j occupant hj

theorem Orderly.stay (hr : r.Orderly capacity) {c : Call}
    (htable : (r.server.perform c).occupants = r.server.occupants)
    (hseats : r.server.seats c = []) (hclears : r.server.clears c = []) : (r.step c).Orderly capacity := by
  have hstep : r.step c = { r with server := r.server.perform c } := by
    simp only [step, hseats, hclears, List.append_nil]
  rw [hstep]
  exact ⟨htable ▸ hr.capacity_eq, hr.admitted_lt, hr.released_lt, htable ▸ hr.tenants⟩

theorem Orderly.step (hr : r.Orderly capacity) (c : Call) :
    (r.step c).Orderly capacity := by
  by_cases haccept : ∃ address, c = .accept address
  · obtain ⟨address, rfl⟩ := haccept
    cases hjoins : r.server.admit? address with
    | none =>
      refine hr.stay ?_ ?_ rfl
      · simp only [perform, accept, hjoins]
        rfl
      · simp only [seats, hjoins, Option.bind_none, Option.toList_none]
    | some admitted =>
      obtain ⟨id, next⟩ := admitted
      obtain ⟨i, generation, hfirst, hfree, rfl, htable, -⟩ := admit?_eq_some hjoins
      have hafter : (r.server.perform (.accept address)).occupants = next.occupants := by
        simp only [perform, accept, hjoins]
        rfl
      refine hr.admit hfree (hafter.trans htable) ?_ rfl
      simp only [seats, hjoins, hfirst, Option.bind_some, Option.map_some, Option.toList_some]
  by_cases hrelease : ∃ id, c = .release id
  · obtain ⟨id, rfl⟩ := hrelease
    cases hlive : r.server.live? id with
    | none =>
      refine hr.stay ?_ rfl ?_
      · simp only [perform, release, hlive]
      · simp only [clears, isConnected, hlive, Option.isSome_none, Bool.false_eq_true, if_false]
    | some live =>
      have hoccupant := occupant_of_live hlive
      refine hr.clear hoccupant ?_ rfl ?_
      · simp only [perform, release, hlive]
        exact occupants_setSlot _ _
      · simp only [clears, isConnected, hlive, Option.isSome_some, if_true]
  · have hstays := r.server.stays_perform (not_exists.1 haccept) (not_exists.1 hrelease)
    refine hr.stay hstays.table ?_ ?_
    · cases c <;> first | rfl | exact absurd ⟨_, rfl⟩ haccept
    · cases c <;> first | rfl | exact absurd ⟨_, rfl⟩ hrelease

theorem Orderly.run (hr : r.Orderly capacity) (calls : List Call) :
    (r.run calls).Orderly capacity := by
  induction calls generalizing r with
  | nil => exact hr
  | cons c calls ih => exact ih (hr.step c)

theorem Orderly.start {settings : ServerSettings} {s : Server} (hnew : s.IsNew settings) :
    (start s).Orderly settings.maxConnections where
  capacity_eq := by simp [Register.start, occupants, hnew.slots]
  admitted_lt := by simp [Register.start]
  released_lt := by simp [Register.start]
  tenants := by
    intro i occupant hat
    simp only [Register.start, occupants, hnew.slots, List.map_replicate, List.getElem?_replicate] at hat
    split at hat
    · cases hat
      exact ⟨0, rfl, rfl, rfl⟩
    · cases hat

theorem Orderly.exists_tenants (hr : r.Orderly capacity) {i : Nat} (hi : i < capacity) :
    ∃ occupant, r.server.occupants[i]? = some occupant ∧ r.Tenants i occupant := by
  rw [← hr.capacity_eq] at hi
  exact ⟨_, List.getElem?_eq_getElem hi, hr.tenants i _ (List.getElem?_eq_getElem hi)⟩

theorem Orderly.eq_idAt (hr : r.Orderly capacity) {i j : Nat} {id : ConnectionId}
    (hat : (r.idsOf i)[j]? = some id) : i < capacity ∧ id = idAt i j := by
  have hi : i < capacity := by
    obtain ⟨p, hp, -⟩ := List.mem_map.1 (List.mem_of_getElem? hat)
    obtain ⟨hp, hpi⟩ := List.mem_filter.1 hp
    exact eq_of_beq hpi ▸ hr.admitted_lt p hp
  obtain ⟨_, -, _, -, -, hids⟩ := hr.exists_tenants hi
  rw [hids, List.getElem?_map, Option.map_eq_some_iff] at hat
  obtain ⟨j', hj', rfl⟩ := hat
  obtain ⟨-, rfl⟩ := List.getElem?_eq_some_iff.1 hj'
  exact ⟨hi, by rw [List.getElem_range]⟩

theorem Orderly.isConnected_iff (hr : r.Orderly capacity) (hcapacity : capacity ≤ UInt32.size)
    (id : ConnectionId) : r.server.isConnected id ↔ r.IsCurrent id := by
  constructor
  · intro hconnected
    obtain ⟨live, hlive⟩ := Option.isSome_iff_exists.1 hconnected
    obtain ⟨k, hgeneration, -, hids⟩ := hr.tenants _ _ (occupant_of_live hlive)
    refine ⟨id.slot.toNat, live, ?_, ?_⟩
    · rw [live?_eq_some.1 hlive, Option.bind_some]
    rw [hids, getLast?_ids, idAt_slot hgeneration]
  · rintro ⟨i, live, hlive, hlast⟩
    obtain ⟨⟨generation, _⟩, hslot, hsome⟩ := Option.bind_eq_some_iff.1 hlive
    simp only at hsome
    subst hsome
    have hoccupant : r.server.occupants[i]? = some (generation, some live.address) := by
      rw [getElem?_occupants, hslot]
      rfl
    obtain ⟨k, hgeneration, -, hids⟩ := hr.tenants _ _ hoccupant
    rw [hids, getLast?_ids, Option.some.injEq] at hlast
    have hi := (List.getElem?_eq_some_iff.1 hoccupant).1
    rw [hr.capacity_eq] at hi
    rw [isConnected, Option.isSome_iff_exists]
    refine ⟨live, ?_⟩
    rw [live?_eq_some, ← hlast, slot_idAt (Nat.lt_of_lt_of_le hi hcapacity), hslot, idAt,
      ConnectionId.generation_ofParts, ← hgeneration]

theorem Orderly.not_connected_of_released (hr : r.Orderly capacity)
    (hfew : ∀ i, (r.idsOf i).length < UInt32.size) {id : ConnectionId} (hid : id ∈ r.released) :
    r.server.isConnected id = false := by
  by_contra hconnected
  rw [Bool.not_eq_false, isConnected, Option.isSome_iff_exists] at hconnected
  obtain ⟨live, hlive⟩ := hconnected
  obtain ⟨k, hgeneration, hreleased, hids⟩ := hr.tenants _ _ (occupant_of_live hlive)
  have hmem : id ∈ r.releasedOf id.slot.toNat := List.mem_filter.2 ⟨hid, beq_self_eq_true _⟩
  rw [hreleased] at hmem
  obtain ⟨j, hj, hjid⟩ := List.mem_map.1 hmem
  have hcount := hfew id.slot.toNat
  rw [hids, List.length_map, List.length_range, Option.toList_some, List.length_singleton] at hcount
  have hsame : idAt id.slot.toNat j = idAt id.slot.toNat k := hjid.trans (idAt_slot hgeneration).symm
  have hlt := List.mem_range.1 hj
  rw [idAt_inj, Nat.mod_eq_of_lt (by omega : j < UInt32.size), Nat.mod_eq_of_lt (by omega : k < UInt32.size)] at hsame
  omega

theorem Orderly.unmistakable (hr : r.Orderly capacity) (hcapacity : capacity ≤ UInt32.size) :
    r.Unmistakable where
  again := by
    intro i j k a b ha hb
    rw [(hr.eq_idAt ha).2, (hr.eq_idAt hb).2, idAt_inj]
    exact and_iff_right rfl
  apart := by
    intro i i' a b hne ha hb heq
    obtain ⟨j, hj⟩ := List.getElem?_of_mem ha
    obtain ⟨j', hj'⟩ := List.getElem?_of_mem hb
    obtain ⟨hi, rfl⟩ := hr.eq_idAt hj
    obtain ⟨hi', rfl⟩ := hr.eq_idAt hj'
    rw [idAt_inj, Nat.mod_eq_of_lt (Nat.lt_of_lt_of_le hi hcapacity),
      Nat.mod_eq_of_lt (Nat.lt_of_lt_of_le hi' hcapacity)] at heq
    exact hne heq.1
  connected := hr.isConnected_iff hcapacity
  stray := by
    intro id hid
    rw [← hr.isConnected_iff hcapacity] at hid
    exact ignores_of_not_connected ((Bool.not_eq_true _).mp hid)
  stale := by
    intro hfew id hid
    have hgone := hr.not_connected_of_released hfew hid
    refine ⟨?_, ignores_of_not_connected hgone⟩
    rw [← hr.isConnected_iff hcapacity, hgone]
    exact Bool.false_ne_true

end Register

/-- Valid settings make a server, and whatever is asked of it, in whatever order, its ids are unmistakable. -/
theorem ids_unmistakable {settings : ServerSettings} (hvalid : settings.violations = []) :
    ∃ s, ofSettings settings = .ok s ∧ ∀ calls, ((Register.start s).run calls).Unmistakable := by
  obtain ⟨s, hs, hnew⟩ := isNew_of_valid hvalid
  refine ⟨s, hs, fun calls ↦ ?_⟩
  have hcapacity := Nat.le_of_lt (settings.maxConnections_lt hvalid)
  exact ((Register.Orderly.start hnew).run calls).unmistakable hcapacity

theorem ids_unmistakable_standard : ServerSettings.standard.violations = [] ∧
    ∃ s, ofSettings .standard = .ok s ∧ ∀ calls, ((Register.start s).run calls).Unmistakable :=
  ⟨by decide, ids_unmistakable (by decide)⟩

end Server
end GameHost
