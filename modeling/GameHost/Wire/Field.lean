import GameHost.Error

namespace GameHost

inductive FieldType
  | char | int8 | uint8 | int16 | uint16 | int32 | uint32 | int64 | uint64 | float
  | pos | matrix | packet | memoryBlock | posBaseMeter | wchar
  deriving DecidableEq, Repr

namespace FieldType

/-- Bytes of one element; zero where the size travels with the message. -/
def width : FieldType → Nat
  | char | int8 | uint8 => 1
  | int16 | uint16 | wchar => 2
  | int32 | uint32 | float => 4
  | int64 | uint64 => 8
  | pos => 12
  | matrix => 64
  | posBaseMeter => 6
  | packet | memoryBlock => 0

def isFixed : FieldType → Bool
  | packet | memoryBlock => false
  | _ => true

def name : FieldType → String
  | char => "char"
  | int8 => "i8"
  | uint8 => "u8"
  | int16 => "i16"
  | uint16 => "u16"
  | int32 => "i32"
  | uint32 => "u32"
  | int64 => "i64"
  | uint64 => "u64"
  | float => "f32"
  | pos => "pos"
  | matrix => "matrix"
  | packet => "packet"
  | memoryBlock => "memory_block"
  | posBaseMeter => "pos_base_meter"
  | wchar => "wchar"

def all : List FieldType :=
  [char, int8, uint8, int16, uint16, int32, uint32, int64, uint64, float,
    pos, matrix, packet, memoryBlock, posBaseMeter, wchar]

def ofName? (text : String) : Option FieldType := all.find? (·.name == text)

def tag (ty : FieldType) : Nat := all.idxOf ty

end FieldType

inductive FlagWidth
  | one | two | four
  deriving DecidableEq, Repr

namespace FlagWidth

def ofBytes (bytes : UInt8) : Except Error FlagWidth :=
  if bytes = 1 then .ok one
  else if bytes = 2 then .ok two
  else if bytes = 4 then .ok four
  else .error (.flagWidth bytes)

def bytes : FlagWidth → Nat
  | one => 1
  | two => 2
  | four => 4

def bits (w : FlagWidth) : Nat := w.bytes * 8

def name : FlagWidth → String
  | one => "One"
  | two => "Two"
  | four => "Four"

end FlagWidth

/-- A type and how often it repeats; for packets the count is the capacity of the array. -/
structure FieldSpec where
  ty : FieldType
  count : UInt16
  deriving DecidableEq, Repr

namespace FieldSpec

def scalar (ty : FieldType) : FieldSpec := ⟨ty, 1⟩
def memoryBlock : FieldSpec := scalar .memoryBlock
def packet : FieldSpec := scalar .packet
def packetArray (capacity : UInt16) : FieldSpec := ⟨.packet, capacity⟩

variable (spec : FieldSpec)

def fixedLen : Nat := spec.ty.width * spec.count.toNat

def isPacketArray : Bool := spec.ty == .packet && decide (1 < spec.count.toNat)

end FieldSpec
end GameHost
