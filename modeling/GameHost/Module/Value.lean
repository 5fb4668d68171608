import GameHost.Module.Records
import GameHost.Text.Hex
import GameHost.Text.Number

namespace GameHost

structure IntType where
  signed : Bool
  width : Nat
  deriving DecidableEq, Repr

inductive ValueType
  | unit
  | int (type : IntType)
  | truth
  | text
  | bytes (n : Nat)
  deriving DecidableEq, Repr

inductive Value
  | unit
  | int (type : IntType) (n : Int)
  | truth (b : Bool)
  | text (s : String)
  | bytes (bs : Bytes)
  deriving DecidableEq, Repr

/-- A value as it is written down, before it is known which type it should have. -/
inductive Literal
  | number (n : Int)
  | text (s : String)
  | truth (b : Bool)
  deriving DecidableEq, Repr

def Literal.shown : Literal → String
  | number n => toString n
  | text s => s
  | truth b => toString b

def IntType.wrap (t : IntType) (n : Int) : Int :=
  if t.signed then n.bmod (Nat.pow 2 (8 * t.width)) else n % Nat.pow 2 (8 * t.width)

namespace ValueType

def all : List (String × ValueType × String) :=
  [("unit", .unit, "()"), ("u8", .int ⟨false, 1⟩, "u8"), ("u16", .int ⟨false, 2⟩, "u16"),
    ("u32", .int ⟨false, 4⟩, "u32"), ("u64", .int ⟨false, 8⟩, "u64"), ("i8", .int ⟨true, 1⟩, "i8"),
    ("i16", .int ⟨true, 2⟩, "i16"), ("i32", .int ⟨true, 4⟩, "i32"), ("i64", .int ⟨true, 8⟩, "i64"),
    ("bool", .truth, "bool"), ("string", .text, "alloc::string::String"),
    ("b3", .bytes 3, "[u8; 3]"), ("b12", .bytes 12, "[u8; 12]")]

def ofName? (name : String) : Option ValueType := all.lookup name |>.map (·.1)

def fullName (t : ValueType) : String := ((all.find? (·.2.1 = t)).map (·.2.2)).getD ""

/-- A text counts with its handle, not with its characters. -/
def size : ValueType → Nat
  | unit => 0
  | int t => t.width
  | truth => 1
  | text => 24
  | bytes n => n

end ValueType

namespace Value

def type : Value → ValueType
  | unit => .unit
  | int t _ => .int t
  | truth _ => .truth
  | text _ => .text
  | bytes bs => .bytes bs.length

instance : Typed Value ValueType := ⟨type, ValueType.size⟩

def initial : ValueType → Value
  | .unit => unit
  | .int t => int t 0
  | .truth => truth false
  | .text => text ""
  | .bytes n => bytes (List.replicate n 0)

theorem type_initial (t : ValueType) : (initial t).type = t := by
  cases t <;> simp [initial, type]

def shown : Value → String
  | unit => "unit"
  | int _ n => toString n
  | truth b => toString b
  | text s => s
  | bytes bs => bs.hexText

/-- A literal that does not suit the type stands for the type's initial value. -/
def ofLiteral : ValueType → Literal → Value
  | .int t, .number n => int t (t.wrap n)
  | .int t, .text s => int t (t.wrap ((Text.integer? 128 s).getD 0))
  | .truth, .truth b => truth b
  | .text, .text s => text s
  | .bytes n, .text s => bytes (Bytes.padTo n ((Bytes.ofHexText s).take n))
  | t, _ => initial t

def ofText? : ValueType → String → Option Value
  | .int t, s =>
    (if t.signed then Text.integer? (8 * t.width) s
      else (Text.natural? (8 * t.width) s).map Int.ofNat).map (int t)
  | .truth, s => (Text.truth? s).map truth
  | .text, s => some (text s)
  | .unit, _ => none
  | .bytes _, _ => none

end Value
end GameHost
