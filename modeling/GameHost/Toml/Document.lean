import GameHost.Toml.Lexeme

namespace GameHost.Toml

def arrayItems (item : Reader Toml) : Nat → Reader (List Toml)
  | 0, _ => none
  | fuel + 1, cs => do
    let cs ← skipGap false cs
    match cs with
    | ']' :: rest => return ([], rest)
    | _ =>
      let (v, rest) ← item cs
      let rest ← skipGap false rest
      match rest with
      | ',' :: rest =>
        let (vs, rest) ← arrayItems item fuel rest
        return (v :: vs, rest)
      | ']' :: rest => return ([v], rest)
      | _ => none

abbrev Pair := List String × String × Toml

def pair (item : Reader Toml) : Reader Pair := fun cs ↦ do
  let ((path, last), rest) ← key cs
  let rest ← expect '=' (skipSpaces rest)
  let (v, rest) ← item (skipSpaces rest)
  return ((path, last, v), rest)

/-- The pairs of an inline table, of which there is at least one, up to its closing brace. -/
def inlinePairs (item : Reader Toml) : Nat → Reader (List Pair)
  | 0, _ => none
  | fuel + 1, cs => do
    let (p, rest) ← pair item cs
    match skipSpaces rest with
    | ',' :: rest =>
      let (ps, rest) ← inlinePairs item fuel rest
      return (p :: ps, rest)
    | '}' :: rest => return ([p], rest)
    | _ => none

def scalar : Reader Toml := fun cs ↦
  match cs with
  | '"' :: _ => (quoted cs).map fun (s, rest) ↦ (.text s, rest)
  | '\'' :: _ => (quoted cs).map fun (s, rest) ↦ (.text s, rest)
  | 't' :: 'r' :: 'u' :: 'e' :: rest => some (.boolean true, rest)
  | 'f' :: 'a' :: 'l' :: 's' :: 'e' :: rest => some (.boolean false, rest)
  | _ => (dateTime cs).or (number cs)

/-- A value in which arrays and inline tables nest at most `depth` deep. -/
def value : Nat → Reader Toml
  | 0, cs => scalar cs
  | depth + 1, cs =>
    match cs with
    | '[' :: rest =>
      (arrayItems (value depth) cs.length rest).map fun (vs, rest) ↦ (.array vs, rest)
    | '{' :: rest =>
      match skipSpaces rest with
      | '}' :: rest => some (.table [], rest)
      | rest => do
        let (ps, rest) ← inlinePairs (value depth) cs.length rest
        let node ← Node.defineAll ps (.table false false [])
        return (node.toToml, rest)
    | _ => scalar cs

inductive Line
  | pair (path : List String) (last : String) (v : Toml)
  | header (path : List String) (last : String)
  | arrayHeader (path : List String) (last : String)

def line : Reader Line := fun cs ↦
  match cs with
  | '[' :: '[' :: rest => do
    let ((path, last), rest) ← key rest
    let rest ← expect ']' (skipSpaces rest)
    let rest ← expect ']' rest
    return (.arrayHeader path last, rest)
  | '[' :: rest => do
    let ((path, last), rest) ← key rest
    let rest ← expect ']' (skipSpaces rest)
    return (.header path last, rest)
  | _ => do
    let ((path, last, v), rest) ← pair (value depthLimit) cs
    return (.pair path last v, rest)

def lines : Nat → List Char → Option (List Line)
  | 0, _ => none
  | fuel + 1, cs => do
    match ← skipGap false cs with
    | [] => return []
    | cs =>
      let (l, rest) ← line cs
      let rest ← skipLineEnd rest
      let ls ← lines fuel rest
      return l :: ls

/-- Opens the table `last` of its parent for a header. A table has one header at most, and none if
dotted keys made it. -/
def open? (last : String) : Node → Option Node
  | .table implicit dotted entries =>
    match entries.lookup last with
    | none => some (.table implicit dotted (Node.put last (.table false false []) entries))
    | some (.table true false es) =>
      some (.table implicit dotted (Node.put last (.table false false es) entries))
    | _ => none
  | _ => none

def append? (last : String) : Node → Option Node
  | .table implicit dotted entries =>
    match entries.lookup last with
    | none =>
      some (.table implicit dotted (Node.put last (.tables [.table false false []]) entries))
    | some (.tables items) =>
      some (.table implicit dotted
        (Node.put last (.tables (items ++ [.table false false []])) entries))
    | _ => none
  | _ => none

/-- The root after a line, and the path of the table that the next pairs belong to. -/
def addLine : Node × List String → Line → Option (Node × List String)
  | (root, here), .pair path last v =>
    (Node.update false (Node.define path last v) here root).map (·, here)
  | (root, _), .header path last =>
    (Node.update false (open? last) path root).map (·, path ++ [last])
  | (root, _), .arrayHeader path last =>
    (Node.update false (append? last) path root).map (·, path ++ [last])

/-- The table that a document describes. A byte order mark may come first. -/
def ofText? (text : String) : Option Toml := do
  let cs := match text.toList with
    | '\uFEFF' :: cs => cs
    | cs => cs
  let ls ← lines (cs.length + 1) cs
  let (root, _) ← ls.foldlM addLine (.table false false [], [])
  return root.toToml

end GameHost.Toml
