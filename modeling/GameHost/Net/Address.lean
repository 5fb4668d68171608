namespace GameHost

inductive IpAddress
  | v4 (a b c d : UInt8)
  | v6 (groups : List UInt16)
  deriving DecidableEq, Repr

namespace IpAddress

def digit? (base : Nat) (c : Char) : Option Nat :=
  let n :=
    if c.isDigit then c.toNat - '0'.toNat
    else if 'a' ≤ c ∧ c ≤ 'f' then c.toNat - 'a'.toNat + 10
    else if 'A' ≤ c ∧ c ≤ 'F' then c.toNat - 'A'.toNat + 10
    else base
  if n < base then some n else none

def digits (base : Nat) (value count : Nat) : List Char → Nat × Nat × List Char
  | [] => (value, count, [])
  | c :: cs =>
    match digit? base c with
    | some n => digits base (value * base + n) (count + 1) cs
    | none => (value, count, c :: cs)

def octet? (cs : List Char) : Option (UInt8 × List Char) :=
  let (value, count, rest) := digits 10 0 0 cs
  if 1 ≤ count ∧ count ≤ 3 ∧ value ≤ 255 ∧ (cs.head? = some '0' → count = 1) then
    some (.ofNat value, rest)
  else none

def group? (cs : List Char) : Option (UInt16 × List Char) :=
  let (value, count, rest) := digits 16 0 0 cs
  if 1 ≤ count ∧ count ≤ 4 then some (.ofNat value, rest) else none

def expect? (c : Char) : List Char → Option (List Char)
  | [] => none
  | d :: ds => if d = c then some ds else none

def readV4? (cs : List Char) : Option (IpAddress × List Char) := do
  let (a, cs) ← octet? cs
  let (b, cs) ← octet? (← expect? '.' cs)
  let (c, cs) ← octet? (← expect? '.' cs)
  let (d, cs) ← octet? (← expect? '.' cs)
  return (.v4 a b c d, cs)

/-- Reads up to `limit` groups with colons between them. A dotted address stands for two groups and
ends the run; the flag says that there was one. -/
def readGroups (first : Bool) : Nat → List Char → List UInt16 × Bool × List Char
  | 0, cs => ([], false, cs)
  | limit + 1, cs =>
    match if first then some cs else expect? ':' cs with
    | none => ([], false, cs)
    | some after =>
      match if limit = 0 then none else readV4? after with
      | some (.v4 a b c d, rest) =>
        ([a.toUInt16 * 256 + b.toUInt16, c.toUInt16 * 256 + d.toUInt16], true, rest)
      | _ =>
        match group? after with
        | none => ([], false, cs)
        | some (g, rest) =>
          let (gs, dotted, rest) := readGroups false limit rest
          (g :: gs, dotted, rest)

def readV6? (cs : List Char) : Option (IpAddress × List Char) := do
  let (head, dotted, rest) := readGroups true 8 cs
  if head.length = 8 then return (.v6 head, rest)
  if dotted then none
  let rest ← expect? ':' (← expect? ':' rest)
  let (tail, _, rest) := readGroups true (7 - head.length) rest
  return (.v6 (head ++ List.replicate (8 - head.length - tail.length) 0 ++ tail), rest)

def ofText? (text : String) : Option IpAddress :=
  match (readV4? text.toList).or (readV6? text.toList) with
  | some (ip, []) => some ip
  | _ => none

def dotted (a b c d : UInt8) : String :=
  s!"{a.toNat}.{b.toNat}.{c.toNat}.{d.toNat}"

def hexText (g : UInt16) : String := String.ofList (Nat.toDigits 16 g.toNat)

def groupsText (gs : List UInt16) : String := ":".intercalate (gs.map hexText)

def zeroRun (gs : List UInt16) : Nat × Nat :=
  let runAt (i : Nat) := ((gs.drop i).takeWhile (· == 0)).length
  (List.range gs.length).foldl (fun best i ↦ if best.2 < runAt i then (i, runAt i) else best) (0, 0)

def text : IpAddress → String
  | v4 a b c d => dotted a b c d
  | v6 [0, 0, 0, 0, 0, 0xffff, x, y] =>
    "::ffff:" ++ dotted (x / 256).toUInt8 x.toUInt8 (y / 256).toUInt8 y.toUInt8
  | v6 gs =>
    let (start, len) := zeroRun gs
    if 1 < len then groupsText (gs.take start) ++ "::" ++ groupsText (gs.drop (start + len))
    else groupsText gs

end IpAddress

structure SocketAddress where
  ip : IpAddress
  port : UInt16
  deriving DecidableEq, Repr

end GameHost
