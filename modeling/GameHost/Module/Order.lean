import GameHost.Error

namespace GameHost.Order

def repeated? (seen : List String) : List String → Option String
  | [] => none
  | n :: ns => if n ∈ seen then some n else repeated? (n :: seen) ns

variable {α : Type} (name : α → String) (deps : α → List String)

/-- The first module with a dependency that is not listed, and the first such dependency. -/
def missing? (ms : List α) : Option (String × String) :=
  ms.findSome? fun m ↦ ((deps m).find? fun d ↦ d ∉ ms.map name).map (name m, ·)

def ready (placed : List String) (m : α) : Bool := (deps m).all (· ∈ placed)

theorem length_eraseP_lt {p : α → Bool} {ms : List α} {m : α} (h : ms.find? p = some m) :
    (ms.eraseP p).length < ms.length := by
  have hm := List.mem_of_find?_eq_some h
  have hlen := List.length_eraseP_of_mem hm (List.find?_some h)
  have := List.length_pos_of_mem hm
  omega

/-- Takes the first module that is ready, again and again. If none is, the answer is the name of the
first that is left. -/
def arrange (placed : List String) (pending : List α) : Except String (List α) :=
  match h : pending.find? (ready deps placed) with
  | some m =>
    have := length_eraseP_lt h
    (arrange (name m :: placed) (pending.eraseP (ready deps placed))).map (m :: ·)
  | none =>
    match pending with
    | [] => .ok []
    | m :: _ => .error (name m)
termination_by pending.length

def dependencyOrder (ms : List α) : Except Error (List α) :=
  match repeated? [] (ms.map name), missing? name deps ms with
  | some n, _ => .error (.duplicateModule n)
  | none, some (n, d) => .error (.missingDependency n d)
  | none, none => (arrange name deps [] ms).mapError .dependencyCycle

end GameHost.Order
