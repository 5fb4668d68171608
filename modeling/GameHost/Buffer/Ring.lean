import GameHost.Bytes

namespace GameHost

/-- `head` is where reading goes on and `tail` where writing does. -/
structure Ring where
  storage : Bytes
  head : Nat
  tail : Nat
  size : Nat
  deriving DecidableEq, Repr

namespace Ring

def ofCapacity (n : Nat) : Ring := ⟨List.replicate n 0, 0, 0, 0⟩

variable (r : Ring)

def capacity : Nat := r.storage.length

def free : Nat := r.capacity - r.size

def isEmpty : Bool := r.size == 0

def reset : Ring := { r with head := 0, tail := 0, size := 0 }

/-- The contents in two runs, the second after the wrap. -/
def slices : Bytes × Bytes :=
  if r.size = 0 then ([], [])
  else if r.head + r.size ≤ r.capacity then ((r.storage.drop r.head).take r.size, [])
  else (r.storage.drop r.head, r.storage.take (r.head + r.size - r.capacity))

def toList : Bytes := r.slices.1 ++ r.slices.2

/-- Writes as much of `data` as fits; gives the number of bytes written. -/
def write (data : Bytes) : Nat × Ring :=
  let count := min data.length r.free
  if count = 0 then (0, r)
  else
    let first := min count (r.capacity - r.tail)
    let storage := (r.storage.overwrite r.tail (data.take first)).overwrite 0
      ((data.take count).drop first)
    (count, { r with storage, tail := (r.tail + count) % r.capacity, size := r.size + count })

def ofBytes (data : Bytes) : Ring := ((ofCapacity data.length).write data).2

def writeAll (data : Bytes) : Bool × Ring :=
  if r.free < data.length then (false, r) else (true, (r.write data).2)

def peek (n : Nat) : Bytes :=
  let count := min n r.size
  if count = 0 then []
  else
    let (a, b) := r.slices
    let first := min count a.length
    a.take first ++ b.take (count - first)

/-- Drops `count` bytes, which must be there. An emptied ring starts over at the front. -/
def advance (count : Nat) : Ring :=
  if count = 0 then r
  else if r.size - count = 0 then r.reset
  else { r with head := (r.head + count) % r.capacity, size := r.size - count }

def read (n : Nat) : Bytes × Ring :=
  let out := r.peek n
  (out, r.advance out.length)

/-- Drops `count` bytes, or fails if there are fewer. -/
def forward (count : Nat) : Bool × Ring :=
  if r.size < count then (false, r) else (true, r.advance count)

/-- Moves bytes from the front of `src` to the back of `dst` until one runs out: how many were
moved, then `dst` and `src`. -/
def consume (dst src : Ring) : Nat × Ring × Ring :=
  let count := min src.size dst.free
  let (a, b) := src.slices
  let first := min count a.length
  let (n, dst) := dst.write (a.take first)
  let (m, dst) := dst.write (b.take (count - first))
  (n + m, dst, src.advance (n + m))

/-- Moves bytes between two of several rings. A ring takes nothing from itself. -/
def consumeAt (rings : List Ring) (dst src : Nat) : Nat × List Ring :=
  match if dst = src then none else rings[dst]?, rings[src]? with
  | some into, some out =>
    let (n, into, out) := consume into out
    (n, (rings.set dst into).set src out)
  | _, _ => (0, rings)

end Ring
end GameHost
