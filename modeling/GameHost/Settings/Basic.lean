import GameHost.Error
import GameHost.Net.Address

namespace GameHost

inductive LogLevel
  | error | warn | info | debug | trace
  deriving DecidableEq, Repr

def LogLevel.name : LogLevel → String
  | error => "error"
  | warn => "warn"
  | info => "info"
  | debug => "debug"
  | trace => "trace"

def LogLevel.all : List LogLevel := [error, warn, info, debug, trace]

structure TimeSpan where
  nanos : Nat
  deriving DecidableEq, Repr

namespace TimeSpan

def ofMillis (n : Nat) : TimeSpan := ⟨n * 1000000⟩

def ofSeconds (n : Nat) : TimeSpan := ⟨n * 1000000000⟩

variable (t : TimeSpan)

/-- Whole milliseconds; what is left over is dropped. -/
def millis : Nat := t.nanos / 1000000

def seconds : Nat := t.nanos / 1000000000

instance : LT TimeSpan := ⟨fun t u ↦ t.nanos < u.nanos⟩

instance : LE TimeSpan := ⟨fun t u ↦ t.nanos ≤ u.nanos⟩

instance (t u : TimeSpan) : Decidable (t < u) := inferInstanceAs (Decidable (t.nanos < u.nanos))

instance (t u : TimeSpan) : Decidable (t ≤ u) := inferInstanceAs (Decidable (t.nanos ≤ u.nanos))

instance : Coe Nat TimeSpan := ⟨ofMillis⟩

instance : Coe TimeSpan Nat := ⟨millis⟩

end TimeSpan

structure ServerSettings where
  address : String
  port : UInt16
  maxConnections : Nat
  maxConnectionsPerIp : Nat
  recvBufferSize : Nat
  sendQueueDepth : Nat
  recvFreelistLimit : Nat
  acceptBackoff : TimeSpan
  shutdownGrace : TimeSpan
  deriving DecidableEq, Repr

structure PacketSettings where
  poolBuffers : Nat
  bufferCapacity : Nat
  deriving DecidableEq, Repr

structure LogSettings where
  appName : String
  level : LogLevel
  json : Bool
  ansi : Bool
  deriving DecidableEq, Repr

structure Settings where
  server : ServerSettings
  packet : PacketSettings
  logging : LogSettings
  deriving DecidableEq, Repr

def ServerSettings.standard : ServerSettings where
  address := "0.0.0.0"
  port := 7777
  maxConnections := 1024
  maxConnectionsPerIp := 10
  recvBufferSize := 4096
  sendQueueDepth := 64
  recvFreelistLimit := 256
  acceptBackoff := .ofMillis 50
  shutdownGrace := .ofSeconds 2

def PacketSettings.standard : PacketSettings := ⟨8, 65536⟩

def LogSettings.standard : LogSettings := ⟨"realm-core", .info, false, true⟩

def Settings.standard : Settings := ⟨.standard, .standard, .standard⟩

def Violation.when (broken : Prop) [Decidable broken] (v : Violation) : List Violation :=
  if broken then [v] else []

namespace ServerSettings

variable (s : ServerSettings)

def bindAddress : String := s!"{s.address}:{s.port.toNat}"

/-- Times are compared in whole seconds. -/
def violations : List Violation :=
  (if s.address = "" then [.noAddress]
    else Violation.when (IpAddress.ofText? s.address = none) (.badAddress s.address)) ++
  (if s.maxConnections = 0 then [.noConnections]
    else Violation.when (UInt32.size ≤ s.maxConnections) (.tooManyConnections s.maxConnections)) ++
  Violation.when (s.maxConnections < s.maxConnectionsPerIp)
    (.perIpAboveTotal s.maxConnectionsPerIp s.maxConnections) ++
  (if s.recvBufferSize < 64 then [.receiveBufferSmall]
    else Violation.when (1024 * 1024 < s.recvBufferSize) .receiveBufferLarge) ++
  Violation.when (s.sendQueueDepth = 0) .noSendQueue ++
  Violation.when (10 < s.acceptBackoff.seconds) .backoffLong ++
  Violation.when (60 < s.shutdownGrace.seconds) .graceLong

end ServerSettings

def PacketSettings.violations (s : PacketSettings) : List Violation :=
  (if s.bufferCapacity < 16 then [.packetBufferSmall]
    else Violation.when (65536 < s.bufferCapacity) (.packetBufferLarge s.bufferCapacity)) ++
  Violation.when (4096 < s.poolBuffers) (.poolLarge s.poolBuffers)

def LogSettings.violations (s : LogSettings) : List Violation :=
  if s.appName = "" then [.noAppName]
  else Violation.when (64 < s.appName.utf8ByteSize) (.appNameLong s.appName.utf8ByteSize)

namespace Settings

variable (s : Settings)

def violations : List Violation :=
  s.server.violations ++ s.packet.violations ++ s.logging.violations

def check : Except Error Unit :=
  if s.violations = [] then .ok () else .error (.config (.invalid s.violations))

end Settings
end GameHost
