namespace GameHost.Text

/-- First and last code of each range, with a gap before the next. -/
abbrev Ranges := List (Nat × Nat)

namespace Ranges

def has (rs : Ranges) (c : Char) : Bool := rs.any fun r ↦ r.1 ≤ c.toNat && c.toNat ≤ r.2

def inOrder : Ranges → Bool
  | [] => true
  | [r] => r.1 ≤ r.2
  | r :: s :: rs => r.1 ≤ r.2 && r.2 < s.1 && inOrder (s :: rs)

end Ranges
end GameHost.Text
