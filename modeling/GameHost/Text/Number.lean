namespace GameHost.Text

def decimal? : List Char → Option Nat
  | [] => none
  | cs =>
    if cs.all Char.isDigit then some (cs.foldl (fun n c ↦ n * 10 + (c.toNat - '0'.toNat)) 0) else none

/-- An optional plus sign, digits, and a value below `2 ^ bits`. -/
def natural? (bits : Nat) (text : String) : Option Nat :=
  let digits := match text.toList with
    | '+' :: cs => cs
    | cs => cs
  (decimal? digits).filter (· < Nat.pow 2 bits)

/-- An optional sign, digits, and a value that fits in `bits` bits with a sign. -/
def integer? (bits : Nat) (text : String) : Option Int :=
  match text.toList with
  | '-' :: cs => ((decimal? cs).filter (· ≤ Nat.pow 2 (bits - 1))).map fun n ↦ -(n : Int)
  | _ => ((natural? bits text).filter (· < Nat.pow 2 (bits - 1))).map Int.ofNat

def truth? (text : String) : Option Bool :=
  if text = "true" then some true else if text = "false" then some false else none

end GameHost.Text
