import GameHost.Wire.Field

namespace GameHost

/-- `[length]` in front of nested messages, memory blocks and array elements. -/
def lengthWidth : Nat := 2

/-- `[guard][length:2][type][flags][owner:4][tick:4]` -/
def headerLen : Nat := 13

def maxPacketSize : Nat := 65535

def frontGuard : UInt8 := 0xD6
def rearGuard : UInt8 := 0x6B

structure Schema where
  flagWidth : FlagWidth
  fields : List FieldSpec
  count_pos : ∀ f ∈ fields, 0 < f.count
  length_le : fields.length ≤ flagWidth.bits
  deriving DecidableEq

namespace Schema

def maxFields : Nat := 64

def empty (w : FlagWidth) : Schema := ⟨w, [], by simp, by simp⟩

/-- Appends a field, unless its count is zero or the flag word is full. -/
def add (s : Schema) (f : FieldSpec) : Except Error Schema :=
  if hc : f.count = 0 then .error (.schema .zeroCount)
  else if maxFields ≤ s.fields.length then .error (.schema .tooManyFields)
  else if hl : s.flagWidth.bits ≤ s.fields.length then .error (.schema .noRoom)
  else
    .ok {
      flagWidth := s.flagWidth
      fields := s.fields ++ [f]
      count_pos := by
        intro g hg
        rcases List.mem_append.mp hg with hg | hg
        · exact s.count_pos g hg
        · rw [List.mem_singleton.mp hg]
          exact UInt16.pos_iff_ne_zero.mpr hc
      length_le := by simp only [List.length_append, List.length_singleton]; omega }

end Schema

/-- A schema in the making: the fields so far, and the first error on the way. -/
structure SchemaBuilder where
  schema : Schema
  error : Option Error

namespace SchemaBuilder

def ofWidth (w : FlagWidth) : SchemaBuilder := ⟨.empty w, none⟩

variable (b : SchemaBuilder)

def field (ty : FieldType) (count : UInt16) : SchemaBuilder :=
  match b.error with
  | some _ => b
  | none =>
    match b.schema.add ⟨ty, count⟩ with
    | .ok schema => { b with schema }
    | .error e => { b with error := some e }

def scalar (ty : FieldType) : SchemaBuilder := b.field ty 1

def memoryBlock : SchemaBuilder := b.field .memoryBlock 1

def packet : SchemaBuilder := b.field .packet 1

def packetArray (capacity : UInt16) : SchemaBuilder := b.field .packet capacity

def build : Except Error Schema :=
  match b.error with
  | some e => .error e
  | none => .ok b.schema

end SchemaBuilder

namespace Schema

def ofSpecs (w : FlagWidth) (specs : List FieldSpec) : Except Error Schema :=
  (specs.foldl (fun b f ↦ b.field f.ty f.count) (SchemaBuilder.ofWidth w)).build

def define (flagBytes : UInt8) (specs : List FieldSpec) : Except Error Schema := do
  let w ← FlagWidth.ofBytes flagBytes
  ofSpecs w specs

variable (s : Schema)

def size : Nat := s.fields.length

def topOverhead : Nat := headerLen + s.flagWidth.bytes

def nestedOverhead : Nat := lengthWidth + s.flagWidth.bytes

end Schema
end GameHost
