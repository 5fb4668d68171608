import GameHost.Error

/-!
Numbered callbacks of a module.

Subscribers to an id are asked in the order in which they subscribed. Each may change the event, and
the first that refuses ends the walk. A subscriber to another type of event refuses without being
asked.
-/

namespace GameHost

/-- `τ` are the types of events and `η` the handlers. -/
structure Subscriber (τ η : Type) where
  module : String
  accepts : τ
  handler : η

def callbackIds : Nat := 32

def callbackCapacity : Nat := 16

structure CallbackTable (τ η : Type) where
  owner : String
  lists : Vector (List (Subscriber τ η)) callbackIds

namespace CallbackTable

variable {τ η σ ε : Type}

def empty (owner : String) : CallbackTable τ η := ⟨owner, .replicate _ []⟩

variable (t : CallbackTable τ η) (id : UInt32)

def list? : Option (List (Subscriber τ η)) := t.lists[id.toNat]?

def add (s : Subscriber τ η) : Except Error (CallbackTable τ η) :=
  match t.list? id with
  | none => .error (.callbackId id)
  | some subscribers =>
    if callbackCapacity ≤ subscribers.length then .error (.callbackCapacity t.owner id)
    else .ok { t with lists := t.lists.setIfInBounds id.toNat (subscribers ++ [s]) }

def count : Nat := ((t.list? id).getD []).length

def subscribers : List String := ((t.list? id).getD []).map (·.module)

end CallbackTable

namespace Subscriber

variable {τ η σ ε : Type} [DecidableEq τ]

abbrev Run (σ ε η : Type) := η → ε → σ → Bool × ε × σ

def ask (run : Run σ ε η) (type : τ) (s : Subscriber τ η) (event : ε) (state : σ) : Bool × ε × σ :=
  if s.accepts = type then run s.handler event state else (false, event, state)

def askAll (run : Run σ ε η) (type : τ) : List (Subscriber τ η) → ε → σ → Bool × ε × σ
  | [], event, state => (true, event, state)
  | s :: rest, event, state =>
    match s.ask run type event state with
    | (true, event, state) => askAll run type rest event state
    | refused => refused

end Subscriber

namespace CallbackTable

variable {τ η σ ε : Type} [DecidableEq τ] (t : CallbackTable τ η) (id : UInt32)

/-- Walks over the subscribers that there are at the moment of the call. -/
def enumerate (run : Subscriber.Run σ ε η) (type : τ) (event : ε) (state : σ) : Bool × ε × σ :=
  match t.list? id with
  | some subscribers => Subscriber.askAll run type subscribers event state
  | none => (false, event, state)

def enumerateAt (run : Subscriber.Run σ ε η) (type : τ) (i : Nat) (event : ε) (state : σ) :
    Bool × ε × σ :=
  match (t.list? id).bind (·[i]?) with
  | some s => s.ask run type event state
  | none => (false, event, state)

end CallbackTable
end GameHost
