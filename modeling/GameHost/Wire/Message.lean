import GameHost.Wire.Value

/-!
Messages under construction and their two encoded forms.

Encoding measures first: `measure` decides every error and gives the presence flags and the size of
the body. Only then is the buffer written, at positions that follow from the measured size.
-/

namespace GameHost

/-- The number whose bit `i` is the `i`-th entry. -/
def flagWord : List Bool → Nat
  | [] => 0
  | b :: bs => b.toNat + 2 * flagWord bs

/-- `badIndex` remembers the first index outside the schema that a value was supplied for. -/
structure Message where
  schema : Schema
  values : List (Option FieldValue)
  badIndex : Option Nat
  length_values : values.length = schema.size

namespace Message

def ofSchema (s : Schema) : Message := ⟨s, List.replicate s.size none, none, by simp⟩

def put (m : Message) (i : Nat) (v : Option FieldValue) : Message :=
  { m with values := m.values.set i v, length_values := by simp [m.length_values] }

def set (m : Message) (i : Nat) (v : FieldValue) : Message :=
  if i < m.schema.size then m.put i (some v) else { m with badIndex := m.badIndex.or (some i) }

def clear (m : Message) (i : Nat) : Message := m.put i none

def setOpt (m : Message) (i : Nat) : Option FieldValue → Message
  | some v => m.set i v
  | none => m.clear i

variable (m : Message)

def entries : List (FieldSpec × Option FieldValue) := m.schema.fields.zip m.values

/-- Sizes of the fields from index `i` on, up to the first that cannot be encoded. -/
def sizesFrom : Nat → List (FieldSpec × Option FieldValue) → Except Error (List (Option Nat))
  | _, [] => .ok []
  | i, (_, none) :: rest => do
    let sizes ← sizesFrom (i + 1) rest
    return none :: sizes
  | i, (spec, some v) :: rest =>
    match v.sizeIn spec with
    | .error fault => .error (.encode i fault)
    | .ok size => do
      let sizes ← sizesFrom (i + 1) rest
      return size :: sizes

def bodySize : List (Option Nat) → Nat
  | [] => 0
  | size :: sizes => size.getD 0 + bodySize sizes

def measure : Except Error (Nat × Nat) :=
  match m.badIndex with
  | some i => .error (.fieldOutOfRange i)
  | none => do
    let sizes ← sizesFrom 0 m.entries
    return (flagWord (sizes.map Option.isSome), bodySize sizes)

def body : Bytes := (m.entries.map fun (spec, v) ↦ (v.map (·.bytesIn spec)).getD []).flatten

def encodedLen : Except Error Nat := do
  let (_, body) ← m.measure
  return m.schema.topOverhead + body + 1

def nestedLen : Except Error Nat := do
  let (_, body) ← m.measure
  return m.schema.nestedOverhead + body

/-- Writes the top-level form into the front of `buf`: the length written or an error, and the
buffer afterwards. -/
def encodeTop (h : Header) (buf : Bytes) : Except Error Nat × Bytes :=
  match m.measure with
  | .error e => (.error e, buf)
  | .ok (flags, bodyLen) =>
    let overhead := m.schema.topOverhead
    let total := overhead + bodyLen + 1
    if maxPacketSize < total then (.error (.oversized total), buf)
    else if buf.length < total then (.error (.bufferTooSmall total buf.length), buf)
    else
      (.ok total, (((buf.overwrite 0 (h.toBytes total)).overwrite headerLen
        (Bytes.toLE m.schema.flagWidth.bytes flags)).overwrite overhead m.body).overwrite
          (total - 1) [rearGuard])

def encodeNested (buf : Bytes) : Except Error Nat × Bytes :=
  match m.measure with
  | .error e => (.error e, buf)
  | .ok (flags, bodyLen) =>
    let overhead := m.schema.nestedOverhead
    let total := overhead + bodyLen
    if maxPacketSize < total - lengthWidth then (.error (.oversized total), buf)
    else if buf.length < total then (.error (.bufferTooSmall total buf.length), buf)
    else
      (.ok total, ((buf.overwrite 0 (Bytes.toLE 2 (total - lengthWidth))).overwrite lengthWidth
        (Bytes.toLE m.schema.flagWidth.bytes flags)).overwrite overhead m.body)

/-- The nested form in a buffer of its own. -/
def nestedBytes : Except Error Bytes := do
  let size ← m.nestedLen
  let (written, buf) := m.encodeNested (List.replicate size 0)
  let n ← written
  return buf.take n

end Message
end GameHost
