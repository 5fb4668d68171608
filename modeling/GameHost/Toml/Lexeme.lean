import GameHost.Toml.Value

namespace GameHost.Toml

abbrev Reader (α : Type) := List Char → Option (α × List Char)

def isSpace (c : Char) : Bool := c == ' ' || c == '\t'

/-- No control characters apart from the tab. -/
def isPlain (c : Char) : Bool := c == '\t' || (0x20 ≤ c.toNat && c.toNat != 0x7F)

def skipSpaces (cs : List Char) : List Char := cs.dropWhile isSpace

def expect (c : Char) : List Char → Option (List Char)
  | d :: cs => if d = c then some cs else none
  | [] => none

def skipLineEnd (cs : List Char) : Option (List Char) :=
  let cs := skipSpaces cs
  let cs := match cs with
    | '#' :: rest => rest.dropWhile isPlain
    | _ => cs
  match cs with
  | [] => some []
  | '\n' :: rest => some rest
  | '\r' :: '\n' :: rest => some rest
  | _ => none

def skipGap (inComment : Bool) : List Char → Option (List Char)
  | [] => some []
  | '\r' :: '\n' :: cs => skipGap false cs
  | c :: cs =>
    if c = '\n' then skipGap false cs
    else if inComment then if isPlain c then skipGap true cs else none
    else if isSpace c then skipGap false cs
    else if c = '#' then skipGap true cs
    else some (c :: cs)

def isHexDigit (c : Char) : Bool :=
  c.isDigit || ('a' ≤ c && c ≤ 'f') || ('A' ≤ c && c ≤ 'F')

def digitValue (c : Char) : Nat :=
  if c.isDigit then c.toNat - '0'.toNat
  else if 'a' ≤ c then c.toNat - 'a'.toNat + 10
  else c.toNat - 'A'.toNat + 10

def numberOf (base : Nat) (digits : List Char) : Nat :=
  digits.foldl (fun n c ↦ n * base + digitValue c) 0

def codePoint? (digits : List Char) : Option Char :=
  let n := numberOf 16 digits
  if digits.all isHexDigit && decide n.isValidChar then some (.ofNat n) else none

def escape : Reader Char
  | 'b' :: cs => some ('\x08', cs)
  | 't' :: cs => some ('\t', cs)
  | 'n' :: cs => some ('\n', cs)
  | 'f' :: cs => some ('\x0c', cs)
  | 'r' :: cs => some ('\r', cs)
  | '"' :: cs => some ('"', cs)
  | '\\' :: cs => some ('\\', cs)
  | 'u' :: cs =>
    if cs.length < 4 then none else (codePoint? (cs.take 4)).map fun c ↦ (c, cs.drop 4)
  | 'U' :: cs =>
    if cs.length < 8 then none else (codePoint? (cs.take 8)).map fun c ↦ (c, cs.drop 8)
  | _ => none

theorem escape_lt {cs rest : List Char} {c : Char} (h : escape cs = some (c, rest)) :
    rest.length < cs.length := by
  unfold escape at h
  split at h
  all_goals first
    | (simp only [Option.some.injEq, Prod.mk.injEq] at h
       simp [← h.2])
    | (split at h
       · simp at h
       · simp only [Option.map_eq_some_iff, Prod.mk.injEq] at h
         obtain ⟨_, _, _, rfl⟩ := h
         simp only [List.length_drop, List.length_cons]
         omega)
    | simp at h

def keep (c : Char) : Option (List Char × List Char) → Option (List Char × List Char) :=
  Option.map fun (cs, rest) ↦ (c :: cs, rest)

def asString : List Char × List Char → String × List Char := fun (cs, rest) ↦ (.ofList cs, rest)

def basicText (cs : List Char) : Option (List Char × List Char) :=
  match cs with
  | [] => none
  | '"' :: rest => some ([], rest)
  | '\\' :: rest =>
    match _h : escape rest with
    | none => none
    | some (c, rest) => keep c (basicText rest)
  | c :: rest =>
    if isPlain c then keep c (basicText rest) else none
termination_by cs.length
decreasing_by
  · have := escape_lt (by assumption)
    simp only [List.length_cons]
    omega
  · simp only [List.length_cons]
    omega

def literalText : Reader (List Char)
  | [] => none
  | '\'' :: rest => some ([], rest)
  | c :: rest =>
    if isPlain c then keep c (literalText rest) else none

/-- Skips the line end that follows the three opening quotes. -/
def skipFirstLineEnd : List Char → List Char
  | '\n' :: rest => rest
  | '\r' :: '\n' :: rest => rest
  | cs => cs

/-- Reads the closing three quotes, with up to two more that belong to the text. -/
def closing (q : Char) (extra : List Char) : Option (List Char × List Char) :=
  match extra with
  | a :: b :: c :: rest =>
    if a = q then if b = q then if c = q then none else some ([q, q], c :: rest)
      else some ([q], b :: c :: rest)
    else some ([], extra)
  | [a, b] => if a = q then if b = q then some ([q, q], []) else some ([q], [b]) else some ([], extra)
  | [a] => if a = q then some ([q], []) else some ([], extra)
  | [] => some ([], [])

def skipLines (seen : Bool) : List Char → Bool × List Char
  | '\r' :: '\n' :: cs => skipLines true cs
  | '\n' :: cs => skipLines true cs
  | c :: cs => if isSpace c then skipLines seen cs else (seen, c :: cs)
  | [] => (seen, [])

theorem skipLines_le (seen : Bool) (cs : List Char) : (skipLines seen cs).2.length ≤ cs.length := by
  fun_induction skipLines seen cs <;> simp_all <;> omega

def endsLine : List Char → Bool
  | '\n' :: _ => true
  | '\r' :: '\n' :: _ => true
  | c :: cs => isSpace c && endsLine cs
  | [] => false

/-- Reads up to three closing double quotes. A backslash at the end of a line joins the line with
the next text after it. -/
def basicLines (cs : List Char) : Option (List Char × List Char) :=
  match cs with
  | [] => none
  | '"' :: '"' :: '"' :: rest => closing '"' rest
  | '\\' :: rest =>
    if endsLine rest then basicLines (skipLines false rest).2
    else
      match _h : escape rest with
      | none => none
      | some (c, rest) => keep c (basicLines rest)
  | '\r' :: '\n' :: rest => keep '\n' (basicLines rest)
  | c :: rest =>
    if isPlain c || c == '\n' then keep c (basicLines rest) else none
termination_by cs.length
decreasing_by
  · have := skipLines_le false rest
    simp only [List.length_cons]
    omega
  · have := escape_lt (by assumption)
    simp only [List.length_cons]
    omega
  · simp only [List.length_cons]
    omega
  · simp only [List.length_cons]
    omega

def literalLines : Reader (List Char)
  | [] => none
  | '\'' :: '\'' :: '\'' :: rest => closing '\'' rest
  | '\r' :: '\n' :: rest => keep '\n' (literalLines rest)
  | c :: rest =>
    if isPlain c || c == '\n' then keep c (literalLines rest) else none

def quoted : Reader String := fun cs ↦
  (match cs with
    | '"' :: '"' :: '"' :: rest => basicLines (skipFirstLineEnd rest)
    | '\'' :: '\'' :: '\'' :: rest => literalLines (skipFirstLineEnd rest)
    | '"' :: rest => basicText rest
    | '\'' :: rest => literalText rest
    | _ => none).map asString

def isBareKey (c : Char) : Bool :=
  c.isAlphanum || c == '-' || c == '_'

def simpleKey : Reader String := fun cs ↦
  match cs with
  | '"' :: rest => (basicText rest).map asString
  | '\'' :: rest => (literalText rest).map asString
  | _ =>
    let name := cs.takeWhile isBareKey
    if name.isEmpty then none else some (.ofList name, cs.dropWhile isBareKey)

/-- Values nest at most so deep, and a key has at most so many parts. -/
def depthLimit : Nat := 79

def dottedKey : Nat → Reader (List String × String)
  | 0, _ => none
  | parts + 1, cs => do
    let (part, rest) ← simpleKey (skipSpaces cs)
    match skipSpaces rest with
    | '.' :: rest => do
      let ((path, last), rest) ← dottedKey parts rest
      return ((part :: path, last), rest)
    | rest => return (([], part), rest)

def key : Reader (List String × String) := dottedKey depthLimit

/-- Reads the rest of a run of digits; an underscore must stand between two of them. -/
def moreDigits (isDigit : Char → Bool) : Reader (List Char)
  | '_' :: c :: cs =>
    if isDigit c then keep c (moreDigits isDigit cs) else none
  | '_' :: [] => none
  | c :: cs =>
    if isDigit c then keep c (moreDigits isDigit cs) else some ([], c :: cs)
  | [] => some ([], [])

def digits (isDigit : Char → Bool) : Reader (List Char)
  | c :: cs => if isDigit c then keep c (moreDigits isDigit cs) else none
  | [] => none

def isOctal (c : Char) : Bool := '0' ≤ c && c ≤ '7'
def isBinary (c : Char) : Bool := c == '0' || c == '1'

def sign : List Char → Bool × List Char
  | '-' :: cs => (true, cs)
  | '+' :: cs => (false, cs)
  | cs => (false, cs)

/-- The digits of a whole number: no leading zeros. -/
def wholeDigits : Reader (List Char)
  | '0' :: cs => some (['0'], cs)
  | cs => digits Char.isDigit cs

def fraction : Reader (List Char)
  | '.' :: cs => digits Char.isDigit cs
  | cs => some ([], cs)

def exponent : Reader (Option Int)
  | c :: cs =>
    if c = 'e' ∨ c = 'E' then do
      let (negative, rest) := sign cs
      let (ds, rest) ← digits Char.isDigit rest
      let n : Int := numberOf 10 ds
      return (some (if negative then -n else n), rest)
    else some (none, c :: cs)
  | [] => some (none, [])

/-- Whether `mantissa * 10 ^ scale` is too large for a double and rounds to infinity. -/
def overflows (mantissa : Nat) (scale : Int) : Bool :=
  let limit := Nat.pow 2 1024 - Nat.pow 2 970
  let magnitude : Int := (toString mantissa).length + scale
  mantissa != 0 && (decide (400 < magnitude) || (decide (0 < magnitude) &&
    if 0 ≤ scale then decide (limit ≤ mantissa * Nat.pow 10 scale.toNat)
    else decide (limit * Nat.pow 10 (-scale).toNat ≤ mantissa)))

/-- A whole number within 64 bits, or a float. Only a positive float may not overflow. -/
def decimal : Reader Toml := fun cs ↦ do
  let (negative, rest) := sign cs
  let (whole, rest) ← wholeDigits rest
  let (frac, afterFrac) ← fraction rest
  let (exp, after) ← exponent afterFrac
  match frac, exp with
  | [], none =>
    let n : Int := numberOf 10 whole
    let n := if negative then -n else n
    if Int64.minValue.toInt ≤ n ∧ n ≤ Int64.maxValue.toInt then return (.integer n, after) else none
  | _, _ =>
    let scale := exp.getD 0 - frac.length
    if !negative && overflows (numberOf 10 (whole ++ frac)) scale then none else return (.float, after)

def inBase (base : Nat) (isDigit : Char → Bool) : Reader Toml := fun cs ↦ do
  let (ds, rest) ← digits isDigit cs
  let n := numberOf base ds
  if n ≤ Int64.maxValue.toInt then return (.integer n, rest) else none

def special : Reader Toml := fun cs ↦
  match (sign cs).2 with
  | 'i' :: 'n' :: 'f' :: rest => some (.float, rest)
  | 'n' :: 'a' :: 'n' :: rest => some (.float, rest)
  | _ => none

def number : Reader Toml := fun cs ↦
  match cs with
  | '0' :: 'x' :: rest => inBase 16 isHexDigit rest
  | '0' :: 'o' :: rest => inBase 8 isOctal rest
  | '0' :: 'b' :: rest => inBase 2 isBinary rest
  | _ => (special cs).or (decimal cs)

def fixedDigits (count : Nat) : Reader Nat := fun cs ↦
  let ds := cs.take count
  if ds.length = count ∧ ds.all Char.isDigit then some (numberOf 10 ds, cs.drop count) else none

def daysIn (year month : Nat) : Nat :=
  if month = 2 then if year % 4 = 0 ∧ (year % 100 ≠ 0 ∨ year % 400 = 0) then 29 else 28
  else if month = 4 ∨ month = 6 ∨ month = 9 ∨ month = 11 then 30
  else 31

def fullDate (cs : List Char) : Option (List Char) := do
  let (year, cs) ← fixedDigits 4 cs
  let (month, cs) ← fixedDigits 2 (← expect '-' cs)
  let (day, cs) ← fixedDigits 2 (← expect '-' cs)
  if 1 ≤ month ∧ month ≤ 12 ∧ 1 ≤ day ∧ day ≤ daysIn year month then some cs else none

def clock (cs : List Char) : Option (List Char) := do
  let (hour, cs) ← fixedDigits 2 cs
  let (minute, cs) ← fixedDigits 2 (← expect ':' cs)
  let (second, cs) ← fixedDigits 2 (← expect ':' cs)
  if 23 < hour ∨ 59 < minute ∨ 60 < second then none
  match cs with
  | '.' :: c :: rest => if c.isDigit then some (rest.dropWhile Char.isDigit) else some cs
  | _ => some cs

def zone (cs : List Char) : Option (List Char) :=
  match cs with
  | 'Z' :: rest => some rest
  | 'z' :: rest => some rest
  | c :: rest =>
    if c = '+' ∨ c = '-' then do
      let (hour, rest) ← fixedDigits 2 rest
      let (minute, rest) ← fixedDigits 2 (← expect ':' rest)
      if hour ≤ 23 ∧ minute ≤ 59 then some rest else none
    else some cs
  | [] => some []

/-- A date, a time of day, or both; only both together may have a zone. -/
def dateTime : Reader Toml := fun cs ↦
  match fullDate cs with
  | some (c :: rest) =>
    if c = 'T' ∨ c = 't' ∨ c = ' ' then
      match clock rest with
      | some rest => (zone rest).map (.date, ·)
      | none => some (.date, c :: rest)
    else some (.date, c :: rest)
  | some [] => some (.date, [])
  | none => (clock cs).map (.date, ·)

end GameHost.Toml
