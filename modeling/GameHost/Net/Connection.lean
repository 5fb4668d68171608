import GameHost.Bytes
import GameHost.Net.Address

namespace GameHost

/-- The low half of the word names a slot of the connection table, the high half the slot's
generation, so that an id outliving its connection never names the next one in that slot. -/
structure ConnectionId where
  word : UInt64
  deriving DecidableEq, Repr

namespace ConnectionId

def ofParts (slot generation : UInt32) : ConnectionId :=
  ⟨.ofNat (generation.toNat * UInt32.size + slot.toNat)⟩

variable (id : ConnectionId)

def slot : UInt32 := .ofNat id.word.toNat

def generation : UInt32 := .ofNat (id.word.toNat / UInt32.size)

def text : String := s!"{id.slot.toNat}#{id.generation.toNat}"


end ConnectionId

inductive ConnectionChange
  | connected | disconnected
  deriving DecidableEq, Repr

structure ConnectionEvent where
  id : ConnectionId
  address : SocketAddress
  change : ConnectionChange
  deriving DecidableEq, Repr

structure ReceiveEvent where
  id : ConnectionId
  data : Bytes
  deriving DecidableEq, Repr

end GameHost
