import GameHost.Net.Server
import Mathlib.Data.List.Basic

namespace GameHost

namespace ConnectionId

theorem toNat_ofParts (slot generation : UInt32) :
    (ofParts slot generation).word.toNat = generation.toNat * UInt32.size + slot.toNat := by
  have hslot := slot.toNat_lt_size
  have hgeneration := generation.toNat_lt_size
  simp only [ofParts, UInt64.toNat_ofNat', UInt32.size] at *
  omega

@[simp] theorem slot_ofParts (slot generation : UInt32) : (ofParts slot generation).slot = slot := by
  have hslot := slot.toNat_lt_size
  apply UInt32.toNat_inj.1
  simp only [ConnectionId.slot, toNat_ofParts, UInt32.toNat_ofNat', UInt32.size] at *
  omega

@[simp] theorem generation_ofParts (slot generation : UInt32) :
    (ofParts slot generation).generation = generation := by
  have hslot := slot.toNat_lt_size
  have hgeneration := generation.toNat_lt_size
  apply UInt32.toNat_inj.1
  simp only [ConnectionId.generation, toNat_ofParts, UInt32.toNat_ofNat', UInt32.size] at *
  omega

@[simp] theorem ofParts_slot_generation (id : ConnectionId) : ofParts id.slot id.generation = id := by
  have hword := id.word.toNat_lt_size
  obtain ⟨word⟩ := id
  simp only [ofParts, slot, generation, mk.injEq]
  apply UInt64.toNat_inj.1
  simp only [UInt64.toNat_ofNat', UInt32.toNat_ofNat', UInt32.size, UInt64.size] at *
  omega

theorem ofParts_inj {slot generation slot' generation' : UInt32} :
    ofParts slot generation = ofParts slot' generation' ↔ slot = slot' ∧ generation = generation' := by
  constructor
  · intro h
    have hslot := congrArg ConnectionId.slot h
    have hgeneration := congrArg ConnectionId.generation h
    simp only [slot_ofParts, generation_ofParts] at hslot hgeneration
    exact ⟨hslot, hgeneration⟩
  · rintro ⟨rfl, rfl⟩
    rfl

end ConnectionId

theorem Violation.when_eq_nil {broken : Prop} [Decidable broken] {v : Violation} :
    Violation.when broken v = [] ↔ ¬ broken := by
  rw [Violation.when]
  split <;> simp_all

namespace ServerSettings

theorem ofText?_address (settings : ServerSettings) (hvalid : settings.violations = []) :
    IpAddress.ofText? settings.address ≠ none := by
  simp only [violations, List.append_eq_nil_iff] at hvalid
  have haddress := hvalid.1.1.1.1.1.1
  split at haddress
  · cases haddress
  · exact Violation.when_eq_nil.1 haddress

theorem maxConnections_lt (settings : ServerSettings) (hvalid : settings.violations = []) :
    settings.maxConnections < UInt32.size := by
  simp only [violations, List.append_eq_nil_iff] at hvalid
  have hconnections := hvalid.1.1.1.1.1.2
  split at hconnections
  · cases hconnections
  · exact Nat.lt_of_not_le (Violation.when_eq_nil.1 hconnections)

end ServerSettings

def TableSlot.occupant (slot : TableSlot) : UInt32 × Option SocketAddress :=
  (slot.generation, slot.live.map (·.address))

namespace Server

inductive Call
  | accept (address : SocketAddress)
  | release (id : ConnectionId)
  | disconnect (id : ConnectionId)
  | shutdown
  | pollConnections (max : Nat)
  | pollReceives
  | giveBack (e : ReceiveEvent)
  | send (id : ConnectionId) (ring : Ring)
  | prepareRead (id : ConnectionId)
  | receive (id : ConnectionId) (data : Bytes)
  | endRead (id : ConnectionId) (failed : Bool)
  | takeRing (id : ConnectionId)
  | writeSome (id : ConnectionId) (n : Nat)
  | finishRing (id : ConnectionId)
  | endWrite (id : ConnectionId) (failed : Bool)

variable (s : Server)

def perform : Call → Server
  | .accept address => s.accept address
  | .release id => s.release id
  | .disconnect id => s.disconnect id
  | .shutdown => s.shutdown
  | .pollConnections max => (s.pollConnections max).2
  | .pollReceives => s.pollReceives.2
  | .giveBack e => s.giveBack e
  | .send id ring => s.send id ring
  | .prepareRead id => s.prepareRead id
  | .receive id data => s.receive id data
  | .endRead id failed => s.endRead id failed
  | .takeRing id => s.takeRing id
  | .writeSome id n => s.writeSome id n
  | .finishRing id => s.finishRing id
  | .endWrite id failed => s.endWrite id failed

/-- The connection events that the simulation gets as the answer. -/
def handsOut : Call → List ConnectionEvent
  | .pollConnections max => (s.pollConnections max).1
  | _ => []

def occupants : List (UInt32 × Option SocketAddress) := s.slots.map (·.occupant)

/-- What one call can do to the table and the events: somebody joins, somebody leaves, or the table stays
and events from the front of the queue are handed out. -/
inductive Turn (s : Server) (out : List ConnectionEvent) (next : Server) : Prop
  | joined {i : Nat} {generation : UInt32} {address : SocketAddress}
      (hfree : s.occupants[i]? = some (generation, none))
      (htable : next.occupants = s.occupants.set i (generation, some address))
      (hqueue : next.connectionEvents =
        s.connectionEvents ++ [⟨.ofParts (.ofNat i) generation, address, .connected⟩])
      (hout : out = [])
  | left {id : ConnectionId} {address : SocketAddress}
      (hlive : s.occupants[id.slot.toNat]? = some (id.generation, some address))
      (htable : next.occupants = s.occupants.set id.slot.toNat (id.generation + 1, none))
      (hqueue : next.connectionEvents = s.connectionEvents ++ [⟨id, address, .disconnected⟩])
      (hout : out = [])
  | stayed (htable : next.occupants = s.occupants)
      (hqueue : out ++ next.connectionEvents = s.connectionEvents)

structure Stays (s : Server) (out : List ConnectionEvent) (next : Server) : Prop where
  table : next.occupants = s.occupants
  queue : out ++ next.connectionEvents = s.connectionEvents

structure IsNew (settings : ServerSettings) (s : Server) : Prop where
  slots : s.slots = List.replicate settings.maxConnections ⟨0, none⟩
  connectionEvents : s.connectionEvents = []

variable {s}

theorem exists_of_ofSettings {settings : ServerSettings} (hnew : ofSettings settings = .ok s) :
    settings.violations = [] ∧ ∃ address,
      s = ⟨settings, address, List.replicate settings.maxConnections ⟨0, none⟩, [], [], [], .zero, false, false⟩ := by
  simp only [ofSettings] at hnew
  split at hnew
  · cases hnew
  next hvalid =>
  split at hnew
  · cases hnew
  · cases hnew
    exact ⟨not_not.1 hvalid, _, rfl⟩

theorem lives_ofSettings {settings : ServerSettings} (hnew : ofSettings settings = .ok s) : s.lives = [] := by
  obtain ⟨-, _, rfl⟩ := exists_of_ofSettings hnew
  exact List.filterMap_replicate_of_none rfl

theorem isNew_of_valid {settings : ServerSettings} (hvalid : settings.violations = []) :
    ∃ s, ofSettings settings = .ok s ∧ s.IsNew settings := by
  simp only [ofSettings, hvalid, ne_eq, not_true, if_false]
  cases hip : IpAddress.ofText? settings.address with
  | none => exact absurd hip (settings.ofText?_address hvalid)
  | some ip => exact ⟨_, rfl, rfl, rfl⟩

theorem slotOf?_eq_some {id : ConnectionId} {slot : TableSlot} :
    s.slotOf? id = some slot ↔ s.slots[id.slot.toNat]? = some slot ∧ slot.generation = id.generation := by
  simp only [slotOf?, Option.filter_eq_some_iff, beq_iff_eq]

theorem live?_eq_some {id : ConnectionId} {live : Live} :
    s.live? id = some live ↔ s.slots[id.slot.toNat]? = some ⟨id.generation, some live⟩ := by
  simp only [live?, Option.bind_eq_some_iff, slotOf?_eq_some]
  constructor
  · rintro ⟨⟨generation, _⟩, ⟨hslot, rfl⟩, rfl⟩
    exact hslot
  · intro hslot
    exact ⟨_, ⟨hslot, rfl⟩, rfl⟩

theorem getElem?_occupants (i : Nat) : s.occupants[i]? = s.slots[i]?.map (·.occupant) :=
  List.getElem?_map

theorem occupant_of_live {id : ConnectionId} {live : Live} (hlive : s.live? id = some live) :
    s.occupants[id.slot.toNat]? = some (id.generation, some live.address) := by
  rw [getElem?_occupants, live?_eq_some.1 hlive]
  rfl

theorem occupants_setSlot (i : Nat) (slot : TableSlot) :
    (s.setSlot i slot).occupants = s.occupants.set i slot.occupant := List.map_set

theorem occupants_onLive (id : ConnectionId) {f : Live → Live} (hf : ∀ live, (f live).address = live.address) :
    (s.onLive id f).occupants = s.occupants := by
  rw [onLive]
  cases hslot : s.slotOf? id with
  | none => rfl
  | some slot =>
    obtain ⟨hlt, hat⟩ := List.getElem?_eq_some_iff.1 (slotOf?_eq_some.1 hslot).1
    have hsame : TableSlot.occupant { slot with live := slot.live.map f } = slot.occupant := by
      simp only [TableSlot.occupant, Option.map_map, Function.comp_def, hf]
    rw [occupants_setSlot, hsame, ← hat, occupants, ← List.map_set, List.set_getElem_self]

theorem connectionEvents_onLive (id : ConnectionId) (f : Live → Live) :
    (s.onLive id f).connectionEvents = s.connectionEvents := by
  rw [onLive]
  split <;> rfl

theorem stays_onLive (id : ConnectionId) {f : Live → Live} (hf : ∀ live, (f live).address = live.address) :
    s.Stays [] (s.onLive id f) :=
  ⟨occupants_onLive id hf, connectionEvents_onLive id f⟩

theorem exists_of_admit? {address : SocketAddress} {id : ConnectionId} {next : Server}
    (hjoins : s.admit? address = some (id, next)) :
    ∃ i generation, s.slots.findIdx? (·.live.isNone) = some i ∧ s.slots[i]? = some ⟨generation, none⟩ ∧
      id = .ofParts (.ofNat i) generation ∧ next =
        (s.setSlot i ⟨generation, some ⟨address, .fresh, s.stopped, []⟩⟩).announce ⟨id, address, .connected⟩ := by
  rw [admit?] at hjoins
  split at hjoins
  · cases hjoins
  cases hfree : s.slots.findIdx? (·.live.isNone) with
  | none =>
    rw [hfree] at hjoins
    cases hjoins
  | some i =>
    obtain ⟨hlt, hnone, -⟩ := List.findIdx?_eq_some_iff_getElem.1 hfree
    simp only [hfree, List.getElem?_eq_getElem hlt, Option.map_some, Option.getD_some, Option.some.injEq,
      Prod.mk.injEq] at hjoins
    obtain ⟨rfl, rfl⟩ := hjoins
    refine ⟨i, s.slots[i].generation, rfl, ?_, rfl, rfl⟩
    rw [List.getElem?_eq_getElem hlt, ← Option.isNone_iff_eq_none.1 hnone]

theorem admit?_eq_some {address : SocketAddress} {id : ConnectionId} {next : Server}
    (hjoins : s.admit? address = some (id, next)) :
    ∃ i generation, s.slots.findIdx? (·.live.isNone) = some i ∧ s.occupants[i]? = some (generation, none) ∧
      id = .ofParts (.ofNat i) generation ∧ next.occupants = s.occupants.set i (generation, some address) ∧
      next.connectionEvents = s.connectionEvents ++ [⟨id, address, .connected⟩] := by
  obtain ⟨i, generation, hfirst, hfree, rfl, rfl⟩ := exists_of_admit? hjoins
  refine ⟨i, generation, hfirst, ?_, rfl, occupants_setSlot i _, rfl⟩
  rw [getElem?_occupants, hfree]
  rfl

theorem turn_accept (address : SocketAddress) : s.Turn [] (s.accept address) := by
  rw [accept]
  split
  · next hjoins =>
    obtain ⟨i, generation, -, hvacant, rfl, htable, hqueue⟩ := admit?_eq_some hjoins
    exact .joined hvacant htable hqueue rfl
  · exact .stayed rfl rfl

theorem turn_release (id : ConnectionId) : s.Turn [] (s.release id) := by
  rw [release]
  cases hlive : s.live? id with
  | none => exact .stayed rfl rfl
  | some live =>
    refine .left ?_ (occupants_setSlot _ _) rfl rfl
    rw [getElem?_occupants, live?_eq_some.1 hlive]
    rfl

theorem stays_shutdown : s.Stays [] s.shutdown := by
  refine ⟨?_, rfl⟩
  simp only [shutdown, occupants, List.map_map]
  apply List.map_congr_left
  intro slot _
  simp only [Function.comp_apply, TableSlot.occupant, Option.map_map]
  rfl

theorem stays_send (id : ConnectionId) (ring : Ring) : s.Stays [] (s.send id ring) := by
  rw [send]
  split
  · exact ⟨rfl, rfl⟩
  · cases s.live? id with
    | none => exact ⟨rfl, rfl⟩
    | some live =>
      dsimp only
      split
      · exact ⟨occupants_onLive id fun _ ↦ rfl, connectionEvents_onLive id _⟩
      · exact ⟨occupants_onLive id fun _ ↦ rfl, connectionEvents_onLive id _⟩
      · exact ⟨rfl, rfl⟩

theorem stays_prepareRead (id : ConnectionId) : s.Stays [] (s.prepareRead id) := by
  rw [prepareRead, receiveBuffer]
  cases s.spare <;> exact ⟨occupants_onLive id fun _ ↦ rfl, connectionEvents_onLive id _⟩

theorem stays_receive (id : ConnectionId) (data : Bytes) : s.Stays [] (s.receive id data) := by
  rw [receive]
  cases s.live? id with
  | none => exact ⟨rfl, rfl⟩
  | some live => exact ⟨occupants_onLive id fun _ ↦ rfl, connectionEvents_onLive id _⟩

theorem stays_endRead (id : ConnectionId) (failed : Bool) : s.Stays [] (s.endRead id failed) := by
  rw [endRead]
  cases failed <;> exact ⟨occupants_onLive id fun _ ↦ rfl, connectionEvents_onLive id _⟩

theorem stays_finishRing (id : ConnectionId) : s.Stays [] (s.finishRing id) := by
  rw [finishRing]
  split
  · exact ⟨occupants_onLive id fun _ ↦ rfl, connectionEvents_onLive id _⟩
  · exact ⟨rfl, rfl⟩

theorem stays_endWrite (id : ConnectionId) (failed : Bool) : s.Stays [] (s.endWrite id failed) := by
  rw [endWrite]
  cases failed <;> exact ⟨occupants_onLive id fun _ ↦ rfl, connectionEvents_onLive id _⟩

theorem stays_perform {c : Call} (haccept : ∀ address, c ≠ .accept address) (hrelease : ∀ id, c ≠ .release id) :
    s.Stays (s.handsOut c) (s.perform c) := by
  cases c with
  | accept address => exact absurd rfl (haccept address)
  | release id => exact absurd rfl (hrelease id)
  | disconnect id => exact stays_onLive id fun _ ↦ rfl
  | shutdown => exact stays_shutdown
  | pollConnections max => exact ⟨rfl, List.take_append_drop max _⟩
  | pollReceives => exact ⟨rfl, rfl⟩
  | giveBack e =>
    simp only [perform, giveBack]
    split <;> exact ⟨rfl, rfl⟩
  | send id ring => exact stays_send id ring
  | prepareRead id => exact stays_prepareRead id
  | receive id data => exact stays_receive id data
  | endRead id failed => exact stays_endRead id failed
  | takeRing id => exact stays_onLive id fun _ ↦ rfl
  | writeSome id n => exact stays_onLive id fun _ ↦ rfl
  | finishRing id => exact stays_finishRing id
  | endWrite id failed => exact stays_endWrite id failed

theorem turn_perform (c : Call) : s.Turn (s.handsOut c) (s.perform c) := by
  by_cases haccept : ∃ address, c = .accept address
  · obtain ⟨address, rfl⟩ := haccept
    exact turn_accept address
  by_cases hrelease : ∃ id, c = .release id
  · obtain ⟨id, rfl⟩ := hrelease
    exact turn_release id
  · have hstays := s.stays_perform (not_exists.1 haccept) (not_exists.1 hrelease)
    exact .stayed hstays.table hstays.queue

end Server
end GameHost
