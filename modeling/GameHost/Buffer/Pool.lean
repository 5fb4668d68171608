import GameHost.Wire.Message

/-!
Reusable buffers of one capacity for encoding messages.

A buffer keeps its bytes when it goes back to the shelf; `PoolBuffer.contents` shows only the part
that was written or claimed since it was taken.
-/

namespace GameHost

/-- The shelf holds the buffers not in use, the last one returned first. -/
structure Pool where
  capacity : Nat
  keep : Nat
  shelf : List Bytes
  deriving DecidableEq, Repr

structure PoolBuffer where
  storage : Bytes
  size : Nat
  deriving DecidableEq, Repr

namespace Pool

/-- One byte more than the largest message. -/
def defaultCapacity : Nat := maxPacketSize + 1

def defaultCount : Nat := 8

def ofCount (count capacity : Nat) : Pool :=
  ⟨capacity, count, List.replicate count (List.replicate capacity 0)⟩

variable (p : Pool)

def available : Nat := p.shelf.length

def acquire : PoolBuffer × Pool :=
  match p.shelf with
  | storage :: shelf => (⟨storage, 0⟩, { p with shelf })
  | [] => (⟨List.replicate p.capacity 0, 0⟩, p)

def giveBack (b : PoolBuffer) : Pool :=
  if p.shelf.length < p.keep then { p with shelf := b.storage :: p.shelf } else p

end Pool

namespace PoolBuffer

variable (b : PoolBuffer)

def capacity : Nat := b.storage.length

def contents : Bytes := b.storage.take b.size

def setSize (n : Nat) : PoolBuffer := { b with size := min n b.capacity }

def fill (byte : UInt8) : PoolBuffer := { b with storage := List.replicate b.capacity byte }

/-- Takes over the outcome of an encoding; after an error the size stays. -/
def afterEncoding : Except Error Nat × Bytes → Except Error Unit × PoolBuffer
  | (.ok n, storage) => (.ok (), ⟨storage, n⟩)
  | (.error e, storage) => (.error e, { b with storage })

def encodeTop (m : Message) (h : Header) : Except Error Unit × PoolBuffer :=
  b.afterEncoding (m.encodeTop h b.storage)

def encodeNested (m : Message) : Except Error Unit × PoolBuffer :=
  b.afterEncoding (m.encodeNested b.storage)

end PoolBuffer
end GameHost
