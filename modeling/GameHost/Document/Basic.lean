import GameHost.Error

/-!
Documents of named sections, each a list of entries `key=value`.

One section may be selected. It is written to, and a cursor walks over its entries. The walk stops at
entries that mark the blocks of modules, so that a reader stays inside its own block.
-/

namespace GameHost

inductive WriteMode
  | unique | duplicates
  deriving DecidableEq, Repr

def WriteMode.name : WriteMode → String
  | unique => "Unique"
  | duplicates => "Duplicates"

structure Section where
  name : String
  entries : List (String × String)
  deriving DecidableEq, Repr

/-- Without a cursor the walk is before the first entry. `blocks` counts the blocks written since the
section was selected, and wraps around. -/
structure Document where
  sections : List Section
  selected : Option Nat
  cursor : Option Nat
  blocks : UInt32
  mode : WriteMode
  deriving DecidableEq, Repr

namespace Document

def empty : Document := ⟨[], none, none, 0, .unique⟩

def ofSections (sections : List Section) : Document := { empty with sections }

/-- An entry with such a key opens the block of the module that its value names. -/
def blockKey : String := "ModuleData"

def endKey : String := "EnumEnd"

def startsWith (key stem : String) : Bool := stem.toList.isPrefixOf key.toList

def isMarker (key : String) : Bool := startsWith key blockKey || startsWith key endKey

variable (d : Document)

def current? : Option Section := d.selected.bind (d.sections[·]?)

def sectionName? : Option String := d.current?.map (·.name)

/-- The entries of the selected section. -/
def entries : List (String × String) := (d.current?.map (·.entries)).getD []

def selectAt (i : Nat) : Document := { d with selected := some i, cursor := none, blocks := 0 }

def selectAt? (i : Nat) : Option Document := if i < d.sections.length then some (d.selectAt i) else none

def addSection (name : String) : Document :=
  { d with sections := d.sections ++ [{ name, entries := [] }] }

/-- Selects a section by its name, and adds it at the end if there is none. -/
def select (name : String) : Document :=
  match d.sections.findIdx? (·.name == name) with
  | some i => d.selectAt i
  | none => (d.addSection name).selectAt d.sections.length

/-- Replaces the value of the first entry with the key, or adds an entry. -/
def putEntry (key value : String) : List (String × String) → List (String × String)
  | [] => [(key, value)]
  | e :: es => if e.1 = key then (key, value) :: es else e :: putEntry key value es

def Section.write (mode : WriteMode) (key value : String) (s : Section) : Section :=
  match mode with
  | .unique => { s with entries := putEntry key value s.entries }
  | .duplicates => { s with entries := s.entries ++ [(key, value)] }

def write (key value : String) : Except Error Document :=
  match d.selected with
  | none => .error (.stream .noSection)
  | some i => .ok { d with sections := d.sections.modify i (Section.write d.mode key value) }

def ahead : Nat := d.cursor.elim 0 (· + 1)

/-- Moves to an entry that is no marker. -/
def moveTo? (i : Nat) : Option Document :=
  (d.entries[i]?.filter fun e ↦ !isMarker e.1).map fun _ ↦ { d with cursor := some i }

def next? : Option Document := d.moveTo? d.ahead

def prev? : Option Document :=
  match d.cursor with
  | some (i + 1) => d.moveTo? i
  | _ => none

def entry? : Option (String × String) := d.cursor.bind (d.entries[·]?)

/-- The value of the first entry with the key, wherever the cursor is. -/
def find? (key : String) : Option String := d.entries.lookup key

/-- The entries that the cursor can still move to. -/
def upcoming : List (String × String) :=
  (d.entries.drop d.ahead).takeWhile fun e ↦ !isMarker e.1

def advance (n : Nat) : Document :=
  if n = 0 then d else { d with cursor := some (d.ahead + n - 1) }

end Document
end GameHost
