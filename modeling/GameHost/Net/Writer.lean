import GameHost.Buffer.Ring

namespace GameHost

/-- A busy writer has a ring in hand, of which `sent` bytes have gone out. -/
inductive Sending
  | idle
  | busy (ring : Ring) (sent : Nat)
  | stopped
  deriving DecidableEq, Repr

structure Writer where
  queue : List Ring
  sending : Sending
  written : Bytes
  deriving DecidableEq, Repr

inductive Offer
  | taken | full | stopped
  deriving DecidableEq, Repr

namespace Writer

def fresh : Writer := ⟨[], .idle, []⟩

variable (w : Writer)

/-- Queues a ring if there is room. A queue always has room for one. -/
def offer (depth : Nat) (ring : Ring) : Offer × Writer :=
  match w.sending with
  | .stopped => (.stopped, w)
  | _ => if w.queue.length < max depth 1 then (.taken, { w with queue := w.queue ++ [ring] }) else (.full, w)

def take : Writer :=
  match w.sending, w.queue with
  | .idle, ring :: rings => { w with queue := rings, sending := .busy ring 0 }
  | _, _ => w

/-- Up to `n` bytes go out, but none after the wrap of the ring. -/
def write (n : Nat) : Writer :=
  match w.sending with
  | .busy ring sent =>
    let out := ring.slices.1.take n
    { w with sending := .busy (ring.forward out.length).2 (sent + out.length), written := w.written ++ out }
  | _ => w

/-- Is done with an emptied ring: how many bytes of it went out. -/
def finish? : Option (Nat × Writer) :=
  match w.sending with
  | .busy ring sent => if ring.isEmpty then some (sent, { w with sending := .idle }) else none
  | _ => none

def stop : Writer := { w with sending := .stopped }

end Writer
end GameHost
