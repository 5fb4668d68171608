namespace GameHost

inductive Violation
  | noAddress
  | badAddress (text : String)
  | noConnections
  | tooManyConnections (count : Nat)
  | perIpAboveTotal (perIp total : Nat)
  | receiveBufferSmall
  | receiveBufferLarge
  | noSendQueue
  | backoffLong
  | graceLong
  | packetBufferSmall
  | packetBufferLarge (size : Nat)
  | poolLarge (count : Nat)
  | noAppName
  | appNameLong (length : Nat)
  deriving DecidableEq, Repr

def Violation.message : Violation → String
  | noAddress => "Server address cannot be empty"
  | badAddress text => s!"Invalid server address: '{text}' (expected an IP such as '0.0.0.0')"
  | noConnections => "Max connections must be greater than 0"
  | tooManyConnections n => s!"Max connections too large: {n} (maximum: 4294967295)"
  | perIpAboveTotal n max => s!"Per-IP connection limit {n} exceeds max connections {max}"
  | receiveBufferSmall => "Receive buffer too small (minimum: 64 bytes)"
  | receiveBufferLarge => "Receive buffer too large (maximum: 1 MB)"
  | noSendQueue => "Send queue depth must be greater than 0"
  | backoffLong => "Accept backoff too long (maximum: 10s)"
  | graceLong => "Shutdown grace period too long (maximum: 60s)"
  | packetBufferSmall => "Packet buffer capacity too small (minimum: 16 bytes)"
  | packetBufferLarge n => s!"Packet buffer capacity {n} exceeds the largest message (65535 bytes)"
  | poolLarge n => s!"Packet pool very large: {n} buffers (maximum: 4096)"
  | noAppName => "Application name cannot be empty"
  | appNameLong n => s!"Application name too long: {n} characters (maximum: 64)"

end GameHost
