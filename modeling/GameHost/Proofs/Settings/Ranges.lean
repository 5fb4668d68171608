import GameHost.Proofs.Net.Calls

namespace GameHost

inductive Requirement
  | address | connections | perIp | receiveBuffer | sendQueue | backoff | grace | packetBuffer | pool | appName
  deriving DecidableEq

namespace Requirement

def ofServer : List Requirement := [address, connections, perIp, receiveBuffer, sendQueue, backoff, grace]

def all : List Requirement := ofServer ++ [packetBuffer, pool, appName]

/-- A time limit of ten seconds is kept by all that takes less than eleven. -/
def Met (s : Settings) : Requirement → Prop
  | address => (IpAddress.ofText? s.server.address).isSome
  | connections => 1 ≤ s.server.maxConnections ∧ s.server.maxConnections ≤ 4294967295
  | perIp => s.server.maxConnectionsPerIp ≤ s.server.maxConnections
  | receiveBuffer => 64 ≤ s.server.recvBufferSize ∧ s.server.recvBufferSize ≤ 1048576
  | sendQueue => 1 ≤ s.server.sendQueueDepth
  | backoff => s.server.acceptBackoff < .ofSeconds 11
  | grace => s.server.shutdownGrace < .ofSeconds 61
  | packetBuffer => 16 ≤ s.packet.bufferCapacity ∧ s.packet.bufferCapacity ≤ 65536
  | pool => s.packet.poolBuffers ≤ 4096
  | appName => 1 ≤ s.logging.appName.utf8ByteSize ∧ s.logging.appName.utf8ByteSize ≤ 64

instance (s : Settings) (r : Requirement) : Decidable (r.Met s) := by
  cases r <;> unfold Met <;> infer_instance

end Requirement

namespace Violation

/-- What a violation tells of. -/
def concerns : Violation → Requirement
  | noAddress | badAddress _ => .address
  | noConnections | tooManyConnections _ => .connections
  | perIpAboveTotal _ _ => .perIp
  | receiveBufferSmall | receiveBufferLarge => .receiveBuffer
  | noSendQueue => .sendQueue
  | backoffLong => .backoff
  | graceLong => .grace
  | packetBufferSmall | packetBufferLarge _ => .packetBuffer
  | poolLarge _ => .pool
  | noAppName | appNameLong _ => .appName

end Violation

namespace Requirement

variable {s : Settings} {r : Requirement} {v w : Violation}

def broken (s : Settings) (r : Requirement) : List Requirement := [r].filter fun r ↦ ¬ r.Met s

theorem broken_of_met (h : r.Met s) : r.broken s = [] := by simp [broken, h]

theorem broken_of_not_met (h : ¬ r.Met s) : r.broken s = [r] := by simp [broken, h]

theorem concerns_when {failed : Prop} [Decidable failed] (h : failed ↔ ¬ v.concerns.Met s) :
    (Violation.when failed v).map Violation.concerns = v.concerns.broken s := by
  by_cases hmet : v.concerns.Met s
  · have hkept : ¬ failed := fun hfailed ↦ h.1 hfailed hmet
    rw [Violation.when, if_neg hkept, broken_of_met hmet, List.map_nil]
  · rw [Violation.when, if_pos (h.2 hmet), broken_of_not_met hmet, List.map_singleton]

/-- Of two bounds, the second is only looked at if the first is kept. -/
theorem concerns_either {low high : Prop} [Decidable low] [Decidable high] (hsame : w.concerns = v.concerns)
    (h : low ∨ high ↔ ¬ v.concerns.Met s) :
    (if low then [v] else Violation.when high w).map Violation.concerns = v.concerns.broken s := by
  by_cases hlow : low
  · have hmet : ¬ v.concerns.Met s := h.1 (.inl hlow)
    rw [if_pos hlow, broken_of_not_met hmet, List.map_singleton]
  · have hhigh : high ↔ ¬ w.concerns.Met s := by
      rw [hsame, ← h]
      exact (or_iff_right hlow).symm
    rw [if_neg hlow, concerns_when hhigh, hsame]

end Requirement

open Requirement

theorem TimeSpan.lt_ofSeconds_iff (t : TimeSpan) (n : ℕ) : t < .ofSeconds n ↔ t.seconds < n := by
  rw [TimeSpan.seconds, Nat.div_lt_iff_lt_mul (by decide)]
  rfl

theorem ServerSettings.concerns_violations (s : Settings) :
    s.server.violations.map Violation.concerns = ofServer.filter fun r ↦ ¬ r.Met s := by
  have haddress : s.server.address = "" ∨ IpAddress.ofText? s.server.address = none ↔ ¬ Met s .address := by
    have hempty : IpAddress.ofText? "" = none := by decide
    rw [Met, Option.not_isSome_iff_eq_none]
    constructor
    · rintro (h | h)
      · rw [h, hempty]
      · exact h
    · exact .inr
  have hconnections : s.server.maxConnections = 0 ∨ UInt32.size ≤ s.server.maxConnections ↔ ¬ Met s .connections := by
    simp only [Met, UInt32.size]
    omega
  have hbuffer : s.server.recvBufferSize < 64 ∨ 1024 * 1024 < s.server.recvBufferSize ↔ ¬ Met s .receiveBuffer := by
    simp only [Met]
    omega
  have hqueue : s.server.sendQueueDepth = 0 ↔ ¬ Met s .sendQueue := by
    simp only [Met]
    omega
  have hbackoff : 10 < s.server.acceptBackoff.seconds ↔ ¬ Met s .backoff := by
    rw [Met, TimeSpan.lt_ofSeconds_iff]
    omega
  have hgrace : 60 < s.server.shutdownGrace.seconds ↔ ¬ Met s .grace := by
    rw [Met, TimeSpan.lt_ofSeconds_iff]
    omega
  have hperIp : s.server.maxConnections < s.server.maxConnectionsPerIp ↔ ¬ Met s .perIp := Nat.not_le.symm
  simp only [violations, List.map_append]
  rw [concerns_either (v := .noAddress) (w := .badAddress _) rfl haddress,
    concerns_either (v := .noConnections) (w := .tooManyConnections _) rfl hconnections,
    concerns_when (v := .perIpAboveTotal _ _) hperIp,
    concerns_either (v := .receiveBufferSmall) (w := .receiveBufferLarge) rfl hbuffer,
    concerns_when (v := .noSendQueue) hqueue, concerns_when (v := .backoffLong) hbackoff,
    concerns_when (v := .graceLong) hgrace]
  simp only [broken, ← List.filter_append]
  rfl

theorem PacketSettings.concerns_violations (s : Settings) :
    s.packet.violations.map Violation.concerns = [packetBuffer, pool].filter fun r ↦ ¬ r.Met s := by
  have hbuffer : s.packet.bufferCapacity < 16 ∨ 65536 < s.packet.bufferCapacity ↔ ¬ Met s .packetBuffer := by
    simp only [Met]
    omega
  have hpool : 4096 < s.packet.poolBuffers ↔ ¬ Met s .pool := Nat.not_le.symm
  rw [violations, List.map_append, concerns_either (v := .packetBufferSmall) (w := .packetBufferLarge _) rfl hbuffer,
    concerns_when (v := .poolLarge _) hpool]
  simp only [broken, ← List.filter_append]
  rfl

theorem LogSettings.concerns_violations (s : Settings) :
    s.logging.violations.map Violation.concerns = [Requirement.appName].filter fun r ↦ ¬ r.Met s := by
  have hname : s.logging.appName = "" ∨ 64 < s.logging.appName.utf8ByteSize ↔ ¬ Met s .appName := by
    rw [Met, ← String.utf8ByteSize_eq_zero_iff]
    omega
  exact concerns_either (v := .noAppName) (w := .appNameLong _) rfl hname

namespace Settings

/-- Each requirement that is not met is told of once, in order. -/
theorem concerns_violations (s : Settings) :
    s.violations.map Violation.concerns = Requirement.all.filter fun r ↦ ¬ r.Met s := by
  rw [violations, List.map_append, List.map_append, ServerSettings.concerns_violations,
    PacketSettings.concerns_violations, LogSettings.concerns_violations, ← List.filter_append, ← List.filter_append]
  rfl

theorem filter_eq_nil_iff {rs : List Requirement} (s : Settings) :
    rs.filter (fun r ↦ ¬ r.Met s) = [] ↔ ∀ r ∈ rs, r.Met s := by
  simp [List.filter_eq_nil_iff]

theorem mem_all (r : Requirement) : r ∈ Requirement.all := by
  cases r <;> decide

theorem violations_eq_nil_iff (s : Settings) : s.violations = [] ↔ ∀ r : Requirement, r.Met s := by
  rw [← List.map_eq_nil_iff, concerns_violations, filter_eq_nil_iff]
  exact ⟨fun h r ↦ h r (mem_all r), fun h r _ ↦ h r⟩

theorem check_eq_ok_iff (s : Settings) : s.check = .ok () ↔ s.violations = [] := by
  rw [check]
  split <;> simp_all

theorem listen_ne_config (server : Server) (host : Host) (fault : ConfigFault) :
    server.listen host ≠ .error (.config fault) := by
  rw [Server.listen]
  split <;> simp

theorem ofSettings_blames_iff (s : Settings) (host : Host) :
    (∃ fault, (Server.ofSettings s.server >>= (·.listen host)) = .error (.config fault)) ↔
      s.server.violations ≠ [] := by
  constructor
  · rintro ⟨fault, hfault⟩ hvalid
    obtain ⟨server, hserver, -⟩ := Server.isNew_of_valid hvalid
    rw [hserver] at hfault
    exact listen_ne_config server host fault hfault
  · intro hbroken
    rw [Server.ofSettings, if_pos hbroken]
    exact ⟨_, rfl⟩

/-- What settings are accepted, and what is told of the others. -/
theorem settings_ranges (s : Settings) (host : Host) :
    s.violations.map Violation.concerns = Requirement.all.filter (fun r ↦ ¬ r.Met s) ∧
      (s.violations = [] ↔ ∀ r : Requirement, r.Met s) ∧
      (s.check = .ok () ↔ ∀ r : Requirement, r.Met s) ∧
      ((∀ fault, (Server.ofSettings s.server >>= (·.listen host)) ≠ .error (.config fault)) ↔
        ∀ r ∈ Requirement.ofServer, r.Met s) := by
  have hvalid := violations_eq_nil_iff s
  refine ⟨concerns_violations s, hvalid, (check_eq_ok_iff s).trans hvalid, ?_⟩
  rw [← filter_eq_nil_iff, ← ServerSettings.concerns_violations, List.map_eq_nil_iff, ← not_iff_not, ← ne_eq,
    ← ofSettings_blames_iff s host]
  exact not_forall_not

example : Settings.standard.check = .ok () := by decide

def overtime : Settings :=
  { standard with
    server := { ServerSettings.standard with acceptBackoff := .ofMillis 10001, shutdownGrace := ⟨60999999999⟩ } }

theorem overtime_accepted :
    ¬ overtime.server.acceptBackoff ≤ .ofSeconds 10 ∧ ¬ overtime.server.shutdownGrace ≤ .ofSeconds 60 ∧
      overtime.violations = [] ∧ overtime.check = .ok () ∧
        ∃ server, Server.ofSettings overtime.server = .ok server := by
  have hserver : overtime.server.violations = [] := by decide
  obtain ⟨server, hok, -⟩ := Server.isNew_of_valid hserver
  exact ⟨by decide, by decide, by decide, by decide, server, hok⟩

end Settings
end GameHost
