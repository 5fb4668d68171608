import GameHost.Bytes

namespace GameHost

namespace Checked

def sub (a b : Nat) : Option Nat := if b ≤ a then some (a - b) else none

def mod (a b : Nat) : Option Nat := if b = 0 then none else some (a % b)

theorem sub_eq {a b : Nat} (h : b ≤ a) : sub a b = some (a - b) := if_pos h

theorem mod_eq {a b : Nat} (h : 0 < b) : mod a b = some (a % b) := if_neg (by omega)

end Checked

namespace Bytes

theorem overwrite_zero (buf src : Bytes) : buf.overwrite 0 src = src ++ buf.drop src.length := by
  simp [overwrite]

theorem overwrite_append {front : Bytes} {i : Nat} (h : front.length = i) (rest src : Bytes) :
    overwrite (front ++ rest) i src = (front ++ src) ++ rest.drop src.length := by
  rw [overwrite, List.take_left' h, ← h, List.drop_append, List.append_assoc]
  simp

theorem overwrite_overwrite (buf x y : Bytes) :
    (buf.overwrite 0 x).overwrite x.length y = buf.overwrite 0 (x ++ y) := by
  rw [overwrite_zero, overwrite_append rfl, overwrite_zero, List.drop_drop, List.length_append]

theorem overwrite_nil (buf : Bytes) (i : Nat) : buf.overwrite i [] = buf := by simp [overwrite]

def slice? (bs : Bytes) (start stop : Nat) : Option Bytes :=
  if start ≤ stop ∧ stop ≤ bs.length then some ((bs.take stop).drop start) else none

theorem slice?_append (front content back : Bytes) :
    (front ++ (content ++ back)).slice? front.length (front.length + content.length) = some content := by
  have hin : front.length ≤ front.length + content.length ∧
      front.length + content.length ≤ (front ++ (content ++ back)).length := by
    simp only [List.length_append]
    omega
  rw [slice?, if_pos hin, ← List.append_assoc, List.take_left' List.length_append,
    List.drop_left' rfl]

theorem slice?_eq {bs : Bytes} {start n : Nat} (h : start + n ≤ bs.length) :
    bs.slice? start (start + n) = some ((bs.drop start).take n) := by
  rw [slice?, if_pos ⟨Nat.le_add_right start n, h⟩, List.drop_take, Nat.add_sub_cancel_left]

theorem slice?_zero {bs : Bytes} {n : Nat} (h : n ≤ bs.length) : bs.slice? 0 n = some (bs.take n) := by
  rw [slice?, if_pos ⟨Nat.zero_le n, h⟩, List.drop_zero]

theorem slice?_length {bs : Bytes} {n : Nat} (h : n ≤ bs.length) :
    bs.slice? n bs.length = some (bs.drop n) := by
  rw [slice?, if_pos ⟨h, Nat.le_refl _⟩, List.take_length]

/-- Copies what `src` holds from `a` up to `b` onto what `buf` holds from `i` up to `j`, which must be
as many bytes. -/
def copy? (buf : Bytes) (i j : Nat) (src : Bytes) (a b : Nat) : Option Bytes := do
  let target ← buf.slice? i j
  let content ← src.slice? a b
  if target.length = content.length then return buf.overwrite i content else none

theorem copy?_eq {buf src : Bytes} {i j a b : Nat} (hj : i + (b - a) = j) (hbuf : j ≤ buf.length)
    (ha : a ≤ b) (hb : b ≤ src.length) :
    buf.copy? i j src a b = some (buf.overwrite i ((src.take b).drop a)) := by
  have htarget : buf.slice? i j = some ((buf.take j).drop i) := if_pos (by omega)
  have hcontent : src.slice? a b = some ((src.take b).drop a) := if_pos ⟨ha, hb⟩
  have hlen : ((buf.take j).drop i).length = ((src.take b).drop a).length := by
    simp only [List.length_drop, List.length_take]
    omega
  rw [copy?, htarget, hcontent]
  exact if_pos hlen

end Bytes
end GameHost
