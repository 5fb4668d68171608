import GameHost.Proofs.Net.Outgoing

namespace GameHost

namespace Server

variable {s next : Server} {id other : ConnectionId} {address : SocketAddress} {live : Live} {settings : ServerSettings}

/-! ### Counting connections -/

def peers (s : Server) (kind : SocketAddress → Bool) : ℕ := s.occupants.countP fun occupant ↦ occupant.2.any kind

theorem countP_lives (s : Server) (kind : SocketAddress → Bool) :
    s.lives.countP (fun live ↦ kind live.address) = s.peers kind := by
  rw [lives, List.countP_filterMap, peers, occupants, List.countP_map]
  apply List.countP_congr
  rintro ⟨generation, _ | live⟩ _ <;> rfl

theorem countOf_eq (s : Server) (ip : IpAddress) : s.countOf ip = s.peers (·.ip == ip) := s.countP_lives (·.ip == ip)

theorem count_eq (s : Server) : s.count = s.peers fun _ ↦ true := by
  rw [← countP_lives, List.countP_true]
  rfl

theorem count_le (s : Server) : s.count ≤ s.slots.length := List.length_filterMap_le ..

theorem peers_set {i : ℕ} {before after : UInt32 × Option SocketAddress} (hat : s.occupants[i]? = some before)
    (htable : next.occupants = s.occupants.set i after) (kind : SocketAddress → Bool) :
    next.peers kind + (before.2.any kind).toNat = s.peers kind + (after.2.any kind).toNat := by
  obtain ⟨hi, rfl⟩ := List.getElem?_eq_some_iff.1 hat
  simp only [peers, htable, List.countP_set hi]
  cases hbefore : s.occupants[i].2.any kind with
  | false => cases after.2.any kind <;> rfl
  | true =>
    have hpos : 0 < s.occupants.countP fun occupant ↦ occupant.2.any kind :=
      List.countP_pos_iff.2 ⟨_, List.getElem_mem hi, hbefore⟩
    simp only [Bool.toNat_true, if_true]
    cases after.2.any kind <;> simp <;> omega

theorem peers_release (hlive : s.live? id = some live) (kind : SocketAddress → Bool) :
    (s.release id).peers kind + (kind live.address).toNat = s.peers kind := by
  rw [release, hlive]
  exact peers_set (occupant_of_live hlive) (occupants_setSlot id.slot.toNat ⟨id.generation + 1, none⟩) kind

/-! ### Letting in -/

theorem perIpFull_eq_false {ip : IpAddress} : s.perIpFull ip = false ↔
    s.settings.maxConnectionsPerIp = 0 ∨ s.countOf ip < s.settings.maxConnectionsPerIp := by
  simp only [perIpFull, Bool.and_eq_false_iff, decide_eq_false_iff_not]
  omega

theorem isSome_admit? (s : Server) (address : SocketAddress) : (s.admit? address).isSome ↔
    (∃ slot ∈ s.slots, slot.live = none) ∧
      (s.settings.maxConnectionsPerIp = 0 ∨ s.countOf address.ip < s.settings.maxConnectionsPerIp) := by
  have hfree : (s.slots.findIdx? (·.live.isNone)).isSome ↔ ∃ slot ∈ s.slots, slot.live = none := by
    simp only [List.findIdx?_isSome, List.any_eq_true, Option.isNone_iff_eq_none]
  rw [← hfree, ← perIpFull_eq_false, admit?]
  cases s.perIpFull address.ip with
  | true => simp
  | false => cases s.slots.findIdx? (·.live.isNone) <;> simp

theorem accept_of_joins (hjoins : s.admit? address = some (id, next)) :
    s.accept address = { next with metrics := next.metrics.onAccepted } := by
  rw [accept, hjoins]

theorem accept_of_refused (hrefused : s.admit? address = none) :
    s.accept address = { s with metrics := s.metrics.onRejected } := by
  rw [accept, hrefused]

theorem peers_accept (hjoins : s.admit? address = some (id, next)) (kind : SocketAddress → Bool) :
    (s.accept address).peers kind = s.peers kind + (kind address).toNat := by
  obtain ⟨i, generation, -, hfree, -, htable, -⟩ := admit?_eq_some hjoins
  rw [accept_of_joins hjoins]
  exact peers_set hfree htable kind

structure Limited (settings : ServerSettings) (s : Server) : Prop where
  settings_eq : s.settings = settings
  length_eq : s.slots.length = settings.maxConnections
  perIp : 0 < settings.maxConnectionsPerIp → ∀ ip, s.countOf ip ≤ settings.maxConnectionsPerIp

namespace Limited

theorem perIp_accept (h : s.Limited settings) (address : SocketAddress) (hlimit : 0 < settings.maxConnectionsPerIp)
    (ip : IpAddress) : (s.accept address).countOf ip ≤ settings.maxConnectionsPerIp := by
  have hbefore := h.perIp hlimit ip
  cases hjoins : s.admit? address with
  | none =>
    rw [accept_of_refused hjoins]
    exact hbefore
  | some admitted =>
    obtain ⟨-, hroom⟩ := (s.isSome_admit? address).1 (Option.isSome_iff_exists.2 ⟨_, hjoins⟩)
    rw [countOf_eq] at hbefore ⊢
    rw [peers_accept hjoins]
    by_cases hsame : address.ip = ip
    · rw [h.settings_eq, hsame, countOf_eq] at hroom
      rw [hsame, beq_self_eq_true, Bool.toNat_true]
      omega
    · rw [beq_eq_false_iff_ne.2 hsame]
      exact hbefore

theorem perIp_release (h : s.Limited settings) (id : ConnectionId) (hlimit : 0 < settings.maxConnectionsPerIp)
    (ip : IpAddress) : (s.release id).countOf ip ≤ settings.maxConnectionsPerIp := by
  have hbefore := h.perIp hlimit ip
  cases hlive : s.live? id with
  | none =>
    rw [release, hlive]
    exact hbefore
  | some live =>
    rw [countOf_eq] at hbefore ⊢
    rw [← peers_release hlive] at hbefore
    exact Nat.le_trans (Nat.le_add_right ..) hbefore

theorem perform (h : s.Limited settings) (c : Call) : (s.perform c).Limited settings := by
  obtain ⟨_, hadds, -⟩ := s.adds_perform c
  refine ⟨hadds.settings.trans h.settings_eq, (length_slots_perform c).trans h.length_eq, fun hlimit ip ↦ ?_⟩
  by_cases haccept : ∃ address, c = .accept address
  · obtain ⟨address, rfl⟩ := haccept
    exact h.perIp_accept address hlimit ip
  by_cases hrelease : ∃ id, c = .release id
  · obtain ⟨id, rfl⟩ := hrelease
    exact h.perIp_release id hlimit ip
  · have hstays := s.stays_perform (not_exists.1 haccept) (not_exists.1 hrelease)
    rw [countOf_eq, peers, hstays.table, ← peers, ← countOf_eq]
    exact h.perIp hlimit ip

theorem performAll (h : s.Limited settings) (calls : List Call) : (calls.foldl Server.perform s).Limited settings := by
  induction calls generalizing s with
  | nil => exact h
  | cons c calls ih => exact ih (h.perform c)

end Limited

theorem Limited.new (hnew : ofSettings settings = .ok s) : s.Limited settings := by
  have hlives := lives_ofSettings hnew
  obtain ⟨-, _, rfl⟩ := exists_of_ofSettings hnew
  refine ⟨rfl, List.length_replicate, fun _ ip ↦ ?_⟩
  rw [countOf, hlives]
  exact Nat.zero_le _

end Server
end GameHost
