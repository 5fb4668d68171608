import GameHost.Document.Basic
import GameHost.Text.Blank

namespace GameHost

inductive Line
  | blank
  | heading (name : String)
  | entry (key value : String)
  | junk
  deriving DecidableEq, Repr

namespace Line

def trimmed (cs : List Char) : String := String.ofList (Text.trim cs)

/-- A heading is in brackets; an entry ends its key at the first `=`. -/
def ofTrimmed : List Char → Line
  | [] => .blank
  | c :: cs =>
    if c = ';' ∨ c = '#' then .blank
    else if c = '[' ∧ cs.getLast? = some ']' then .heading (trimmed cs.dropLast)
    else
      match (c :: cs).dropWhile (· ≠ '=') with
      | [] => .junk
      | _ :: value => .entry (trimmed ((c :: cs).takeWhile (· ≠ '='))) (trimmed value)

def ofChars (cs : List Char) : Line := ofTrimmed (Text.trim cs)

def split : List Char → List (List Char)
  | [] => [[]]
  | c :: cs =>
    if c = '\n' then [] :: split cs
    else
      match split cs with
      | [] => [[c]]
      | l :: ls => (c :: l) :: ls

end Line

namespace Document

/-- Reads lines, the first of which has the number `n`, while `open?` is the section being filled. -/
def readLines (n : Nat) (open? : Option Section) : List (List Char) → Except StreamFault (List Section)
  | [] => .ok open?.toList
  | cs :: rest =>
    match Line.ofChars cs, open? with
    | .blank, _ => readLines (n + 1) open? rest
    | .heading name, _ =>
      (readLines (n + 1) (some ⟨name, []⟩) rest).map (open?.toList ++ ·)
    | .entry key value, some s =>
      readLines (n + 1) (some { s with entries := s.entries ++ [(key, value)] }) rest
    | .entry _ _, none => .error (.outsideSection n)
    | .junk, _ => .error (.expectedPair n)

def ofText (text : String) : Except Error Document :=
  match readLines 1 none (Line.split text.toList) with
  | .ok sections => .ok (ofSections sections)
  | .error fault => .error (.stream fault)

def entryText (e : String × String) : String := e.1 ++ "=" ++ e.2 ++ "\n"

def sectionText (s : Section) : String :=
  "[" ++ s.name ++ "]\n" ++ String.join (s.entries.map entryText)

def text (d : Document) : String := "\n".intercalate (d.sections.map sectionText)

end Document
end GameHost
