import GameHost.Document.Basic

/-!
Blocks of a section, one for each module that keeps values there.

A block starts with an entry whose value names its module, and the last block is followed by an end
entry. Writing asks every module in turn for the entries of its block; reading hands each block to
the module that it names.
-/

namespace GameHost

/-- What a module does to a document and to a state of its own; it may fail halfway. -/
abbrev BlockAction (σ : Type) := σ → Document → Except Error Unit × σ × Document

structure BlockHook (σ : Type) where
  module : String
  read : BlockAction σ
  write : BlockAction σ

namespace Document

variable {σ : Type}

def writeEntry (key value : String) : BlockAction σ := fun s d ↦
  match d.write key value with
  | .ok d => (.ok (), s, d)
  | .error e => (.error e, s, d)

def andThen (first second : BlockAction σ) : BlockAction σ := fun s d ↦
  match first s d with
  | (.ok _, s, d) => second s d
  | stopped => stopped

/-- The entry that opens the next block. Blocks are numbered from one. -/
def openBlock (module : String) : BlockAction σ := fun s d ↦
  let n := d.blocks + 1
  writeEntry (blockKey ++ toString n) module s { d with blocks := n }

def writeBlocks : List (BlockHook σ) → BlockAction σ
  | [] => writeEntry endKey "0"
  | h :: hs => andThen (andThen (openBlock h.module) h.write) (writeBlocks hs)

/-- Entries are added even if their keys are there, so that modules may use the same keys. -/
def enumWrite (hooks : List (BlockHook σ)) : BlockAction σ := fun s d ↦
  let (outcome, s, after) := writeBlocks hooks s { d with mode := .duplicates }
  (outcome, s, { after with mode := d.mode })

/-- Reads blocks from the entry at `i` on. The cursor that a reader leaves behind may only put the
next entry further on. There is no answer if `fuel` entries are not enough. -/
def readBlocks (hooks : List (BlockHook σ)) :
    Nat → Nat → σ → Document → Option (Except Error Unit × σ × Document)
  | 0, _, _, _ => none
  | fuel + 1, i, s, d =>
    let goOn (s : σ) (d : Document) := readBlocks hooks fuel (max (d.cursor.getD i) i + 1) s d
    match d.entries[i]? with
    | none => some (.ok (), s, d)
    | some (key, value) =>
      if startsWith key blockKey then
        let d := { d with cursor := some i }
        match hooks.find? (·.module == value) with
        | none => goOn s d
        | some h =>
          match h.read s d with
          | (.ok _, s, d) => goOn s d
          | stopped => some stopped
      else if startsWith key endKey then some (.ok (), s, { d with cursor := some i })
      else goOn s d

/-- Enough for readers that add no entries, with room for more than any memory holds. -/
def readFuel (d : Document) : Nat :=
  (d.sections.map fun s : Section ↦ s.entries.length).foldl max 0 + UInt32.size

def enumRead (hooks : List (BlockHook σ)) (s : σ) (d : Document) :
    Option (Except Error Unit × σ × Document) :=
  readBlocks hooks d.readFuel d.ahead s d

end Document
end GameHost
