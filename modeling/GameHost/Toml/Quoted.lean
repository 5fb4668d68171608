/-!
Writing a text as a TOML string, in the first form that needs no escape: between double quotes, then
literally between single quotes, then each of them over several lines. A text that fits none of these
forms is escaped.
-/

namespace GameHost.Toml.Quoted

inductive Form
  | basic | literal | longBasic | longLiteral
  deriving DecidableEq, Repr

def Form.isLong : Form → Bool
  | basic | literal => false
  | longBasic | longLiteral => true

def Form.delimiter : Form → List Char
  | basic => ['"']
  | literal => ['\'']
  | longBasic => ['"', '"', '"']
  | longLiteral => ['\'', '\'', '\'']

/-- The longest run of the character, if `run` of them came just before. -/
def longestRun (q : Char) (run : Nat) : List Char → Nat
  | [] => run
  | c :: cs => if c = q then longestRun q (run + 1) cs else max run (longestRun q 0 cs)

def isControl (c : Char) : Bool := c.toNat < 0x20 || c.toNat == 0x7F

def isHidden (c : Char) : Bool := isControl c && c != '\t' && c != '\n'

/-- Whether the form can hold the text without escapes; only long forms have line ends and quotes of
their own kind, of which two in a row do not end the text. -/
def Form.holds (f : Form) (cs : List Char) : Bool :=
  let quotes (q : Char) := decide (longestRun q 0 cs ≤ if f.isLong then 2 else 0)
  !cs.any isHidden && (f.isLong || !cs.contains '\n') &&
    match f with
    | basic | longBasic => quotes '"' && !cs.contains '\\'
    | literal | longLiteral => quotes '\''

def formOf (cs : List Char) : Form :=
  ([.basic, .literal, .longBasic, .longLiteral].find? (Form.holds · cs)).getD
    (if cs.contains '\n' then .longBasic else .basic)

def hex4 (n : Nat) : List Char :=
  let ds := (Nat.toDigits 16 n).map Char.toUpper
  List.replicate (4 - ds.length) '0' ++ ds

/-- A character other than a double quote; line ends stay as they are in a long form. -/
def escapeChar (long : Bool) (c : Char) : List Char :=
  match c with
  | '\x08' => ['\\', 'b']
  | '\t' => ['\\', 't']
  | '\n' => if long then ['\n'] else ['\\', 'n']
  | '\x0c' => ['\\', 'f']
  | '\r' => ['\\', 'r']
  | '\\' => ['\\', '\\']
  | _ => if isControl c then '\\' :: 'u' :: hex4 c.toNat else [c]

/-- The text of a form between double quotes. A double quote is escaped where it would end the text,
with `run` of them just before. -/
def escape (long : Bool) (run : Nat) : List Char → List Char
  | [] => []
  | c :: cs =>
    if c = '"' then
      if run < if long then 2 else 0 then c :: escape long (run + 1) cs
      else '\\' :: c :: escape long 0 cs
    else escapeChar long c ++ escape long 0 cs

def encode (text : String) : String :=
  let cs := text.toList
  let form := formOf cs
  let start := if form.isLong && cs.contains '\n' then ['\n'] else []
  let body := match form with
    | .basic | .longBasic => escape form.isLong 0 cs
    | .literal | .longLiteral => cs
  String.ofList (form.delimiter ++ start ++ body ++ form.delimiter)

end GameHost.Toml.Quoted
