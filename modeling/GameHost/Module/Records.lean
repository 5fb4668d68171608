import GameHost.Error

/-!
Records of a module and the data that other modules attach to them.

The owner of a kind of record gives its base. Other modules attach parts to the kind, each at the
offset that it would have if a record were laid out flat. Every record made afterwards carries a value
for each part, which is found by offset and type.
-/

namespace GameHost

/-- Values of several types, and the size of each type in bytes. -/
class Typed (V : Type) (τ : outParam Type) where
  typeOf : V → τ
  size : τ → Nat

def recordKinds : Nat := 8

def attachmentCapacity : Nat := 32

/-- A part of every record of a kind: the value it starts with, and the label under which its making
and its end are noted, if they are. -/
structure Part (V : Type) where
  value : V
  label : Option String
  deriving DecidableEq, Repr

inductive PartEvent (V : Type)
  | made (part : Part V)
  | dropped (part : Part V) (last : V)
  deriving DecidableEq, Repr

structure Attachment (V : Type) where
  offset : Nat
  module : String
  part : Part V
  deriving DecidableEq, Repr

/-- `β` are the hooks that read and write blocks of documents. -/
structure Layout (V β : Type) where
  base : Part V
  attached : List (Attachment V)
  size : Nat
  hooks : List β

structure RecordKey (τ : Type) where
  offset : Nat
  type : τ
  deriving DecidableEq, Repr

structure Record (V : Type) where
  kind : UInt32
  base : V
  slots : List (Nat × V)
  deriving DecidableEq, Repr

structure RecordTable (V β : Type) where
  owner : String
  kinds : Vector (Option (Layout V β)) recordKinds
  closed : Bool

section

variable {V τ : Type} [DecidableEq τ] [Typed V τ]

/-- Where a slot is at the offset of the key, and its value has the type of the key. -/
def Record.get? (r : Record V) (key : RecordKey τ) : Option V :=
  (r.slots.lookup key.offset).filter fun v ↦ Typed.typeOf v = key.type

def Record.set? (r : Record V) (key : RecordKey τ) (v : V) : Option (Record V) :=
  if (r.get? key).isSome ∧ Typed.typeOf v = key.type then
    some { r with slots := r.slots.map fun s ↦ if s.1 = key.offset then (s.1, v) else s }
  else none

def Record.baseAs? (r : Record V) (type : τ) : Option V :=
  if Typed.typeOf r.base = type then some r.base else none

def Record.setBase? (r : Record V) (v : V) : Option (Record V) :=
  if Typed.typeOf r.base = Typed.typeOf v then some { r with base := v } else none

def Part.size (p : Part V) : Nat := Typed.size V (Typed.typeOf p.value)

/-- The end of a value is noted only if it has the type that the part was declared with. -/
def Part.drop (p : Part V) (last : V) : List (PartEvent V) :=
  if Typed.typeOf last = Typed.typeOf p.value then [.dropped p last] else []

end

namespace RecordTable

variable {V τ β : Type} [DecidableEq τ] [Typed V τ]

def empty (owner : String) : RecordTable V β := ⟨owner, .replicate _ none, false⟩

variable (t : RecordTable V β) (kind : UInt32)

def close : RecordTable V β := { t with closed := true }

def layout? : Option (Layout V β) := t.kinds[kind.toNat]?.join

def put (l : Layout V β) : RecordTable V β :=
  { t with kinds := t.kinds.setIfInBounds kind.toNat (some l) }

def checkKind : Except Error Unit :=
  if kind.toNat < recordKinds then .ok () else .error (.recordKind t.owner kind)

def checkOpen : Except Error Unit :=
  if t.closed then .error (.wiring .layoutSealed) else .ok ()

def layout : Except Error (Layout V β) := do
  t.checkKind kind
  match t.layout? kind with
  | some l => .ok l
  | none => .error (.wiring .noLayout)

/-- Offsets count from the base, so it stays as it is once something is attached. -/
def setLayout (base : Part V) : Except Error (RecordTable V β) := do
  t.checkKind kind
  t.checkOpen
  match t.layout? kind with
  | none => .ok (t.put kind ⟨base, [], base.size, []⟩)
  | some old =>
    if old.attached.isEmpty then .ok (t.put kind ⟨base, [], base.size, old.hooks⟩)
    else .error (.wiring .layoutInUse)

/-- A part without a size still takes up one byte, so that no two have the same offset. -/
def attach (requester : String) (part : Part V) : Except Error (RecordKey τ × RecordTable V β) := do
  t.checkKind kind
  t.checkOpen
  match t.layout? kind with
  | none => .error (.wiring .noLayout)
  | some l =>
    if attachmentCapacity ≤ l.attached.length then .error (.attachmentCapacity t.owner kind)
    else
      .ok (⟨l.size, Typed.typeOf part.value⟩, t.put kind { l with
        attached := l.attached ++ [⟨l.size, requester, part⟩]
        size := l.size + max part.size 1 })

def addHook (hook : β) : Except Error (RecordTable V β) := do
  let l ← t.layout kind
  .ok (t.put kind { l with hooks := l.hooks ++ [hook] })

/-- The base comes first, then the parts in the order in which they were attached. -/
def create : Except Error (Record V × List (PartEvent V)) := do
  let l ← t.layout kind
  .ok (⟨kind, l.base.value, l.attached.map fun a ↦ (a.offset, a.part.value)⟩,
    .made l.base :: l.attached.map fun a ↦ .made a.part)

/-- Drops attached values in order until one is not where the layout has it. -/
def dropSlots : List (Attachment V) → List (Nat × V) → Bool × List (PartEvent V)
  | a :: as, s :: ss =>
    if a.offset = s.1 then
      let (fits, events) := dropSlots as ss
      (fits, a.part.drop s.2 ++ events)
    else (false, [])
  | _, _ => (true, [])

/-- The parts go in the order in which they were attached, and the base last. -/
def destroy (r : Record V) : Except Error Unit × List (PartEvent V) :=
  match t.layout r.kind with
  | .error e => (.error e, [])
  | .ok l =>
    if l.attached.length < r.slots.length then (.error (.wiring .foreignRecord), [])
    else
      match dropSlots l.attached r.slots with
      | (true, events) => (.ok (), events ++ l.base.drop r.base)
      | (false, events) => (.error (.wiring .foreignRecord), events)

end RecordTable
end GameHost
