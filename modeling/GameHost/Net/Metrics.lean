namespace GameHost

structure Metrics where
  accepted : UInt64
  rejected : UInt64
  active : UInt64
  receiveEvents : UInt64
  bytesReceived : UInt64
  sendBuffers : UInt64
  bytesSent : UInt64
  sendsDropped : UInt64
  ioErrors : UInt64
  deriving DecidableEq, Repr

namespace Metrics

def zero : Metrics := ⟨0, 0, 0, 0, 0, 0, 0, 0, 0⟩

variable (m : Metrics)

def onAccepted : Metrics := { m with accepted := m.accepted + 1, active := m.active + 1 }
def onRejected : Metrics := { m with rejected := m.rejected + 1 }
def onClosed : Metrics := { m with active := m.active - 1 }
def onReceived (n : UInt64) : Metrics :=
  { m with receiveEvents := m.receiveEvents + 1, bytesReceived := m.bytesReceived + n }
def onSendQueued : Metrics := { m with sendBuffers := m.sendBuffers + 1 }
def onSent (n : UInt64) : Metrics := { m with bytesSent := m.bytesSent + n }
def onSendDropped : Metrics := { m with sendsDropped := m.sendsDropped + 1 }
def onIoError : Metrics := { m with ioErrors := m.ioErrors + 1 }

end Metrics
end GameHost
