namespace GameHost

inductive Toml
  | text (s : String)
  | integer (n : Int)
  | float
  | boolean (b : Bool)
  | date
  | array (items : List Toml)
  | table (entries : List (String × Toml))
  deriving Repr

namespace Toml

/-- A table while its document is read. `implicit` marks one that so far is only part of a path,
`dotted` one that came from a dotted key. -/
inductive Node
  | value (v : Toml)
  | table (implicit dotted : Bool) (entries : List (String × Node))
  | tables (items : List Node)

namespace Node

def put (key : String) (node : Node) : List (String × Node) → List (String × Node)
  | [] => [(key, node)]
  | (k, n) :: rest => if k = key then (k, node) :: rest else (k, n) :: put key node rest

/-- Changes the table at the end of a path, making the tables on the way that are not there. A path
leads into the last table of an array. A dotted key must not reopen a table that has a header. -/
def update (dotted : Bool) (change : Node → Option Node) : List String → Node → Option Node
  | [], node => change node
  | key :: path, .table implicit wasDotted entries => do
    let inner ← match entries.lookup key with
      | none => update dotted change path (.table true dotted [])
      | some (.table imp dot es) =>
        if dotted && !imp then none else update dotted change path (.table imp dot es)
      | some (.tables items) => do
        let last ← items.getLast?
        let last ← update dotted change path last
        some (.tables (items.dropLast ++ [last]))
      | some (.value _) => none
    return .table implicit wasDotted (put key inner entries)
  | _ :: _, _ => none

/-- Adds `path.key = value`. The table that takes the key must have come from the same dotted form. -/
def define (path : List String) (key : String) (v : Toml) : Node → Option Node :=
  update true (fun
    | .table implicit dotted entries =>
      if dotted == path.isEmpty then none
      else if (entries.lookup key).isSome then none
      else some (.table implicit dotted (entries ++ [(key, .value v)]))
    | _ => none) path

def defineAll (pairs : List (List String × String × Toml)) (node : Node) : Option Node :=
  pairs.foldlM (fun n (path, key, v) ↦ define path key v n) node

mutual

def toToml : Node → Toml
  | value v => v
  | table _ _ entries => .table (entriesToToml entries)
  | tables items => .array (listToToml items)

def entriesToToml : List (String × Node) → List (String × Toml)
  | [] => []
  | (key, node) :: rest => (key, toToml node) :: entriesToToml rest

def listToToml : List Node → List Toml
  | [] => []
  | node :: rest => toToml node :: listToToml rest

end

end Node
end Toml
end GameHost
