import GameHost.Buffer.Ring
import GameHost.Proofs.Access
import Mathlib.Data.List.Rotate

namespace GameHost

namespace Bytes

variable {front back data : Bytes}

theorem rotate_overwrite_before_end (h : data.length ≤ back.length) :
    (overwrite (front ++ back) front.length data).rotate front.length =
      overwrite (back ++ front) 0 data := by
  rw [overwrite_append rfl, List.append_assoc, List.rotate_append_length_eq, overwrite_zero,
    List.drop_append_of_le_length h, List.append_assoc]

theorem rotate_overwrite_past_end {x y : Bytes} (hx : x.length = back.length)
    (hy : y.length ≤ front.length) :
    (overwrite (overwrite (front ++ back) front.length x) 0 y).rotate front.length =
      overwrite (back ++ front) 0 (x ++ y) := by
  have hfront : (y ++ front.drop y.length).length = front.length := by
    rw [List.length_append, List.length_drop]
    omega
  have hrest : (back ++ front).drop (x.length + y.length) = front.drop y.length := by
    rw [hx, ← List.drop_drop, List.drop_left]
  rw [overwrite_append rfl, hx, List.drop_length, List.append_nil, overwrite_zero,
    List.drop_append_of_le_length hy, ← List.append_assoc, ← hfront, List.rotate_append_length_eq,
    overwrite_zero, List.length_append, hrest, List.append_assoc]

/-- What does not fit before the end of the storage goes to its front. In the view from where the
writing began, one run of bytes is replaced. -/
theorem rotate_overwrite {storage : Bytes} {tail first : Nat} (htail : tail ≤ storage.length)
    (hdata : data.length ≤ storage.length) (hfirst : first = min data.length (storage.length - tail)) :
    ((storage.overwrite tail (data.take first)).overwrite 0 (data.drop first)).rotate tail =
      overwrite (storage.rotate tail) 0 data := by
  obtain ⟨front, back, rfl, rfl⟩ : ∃ front back : Bytes, storage = front ++ back ∧ tail = front.length :=
    ⟨storage.take tail, storage.drop tail, (List.take_append_drop tail storage).symm,
      (List.length_take_of_le htail).symm⟩
  rw [List.length_append] at hdata hfirst
  rw [List.rotate_append_length_eq]
  by_cases hroom : data.length ≤ back.length
  · have hall : first = data.length := by omega
    rw [hall, List.take_length, List.drop_length, overwrite_nil]
    exact rotate_overwrite_before_end hroom
  · have hx : (data.take first).length = back.length := by
      rw [List.length_take]
      omega
    have hy : (data.drop first).length ≤ front.length := by
      rw [List.length_drop]
      omega
    rw [rotate_overwrite_past_end hx hy, List.take_append_drop]

theorem rotate_overwrite_of_le {storage : Bytes} {i : Nat} (h : i + data.length ≤ storage.length) :
    (storage.overwrite i data).rotate i = overwrite (storage.rotate i) 0 data := by
  have hi : i ≤ storage.length := by omega
  have hfirst : data.length = min data.length (storage.length - i) := by omega
  have hwrap := rotate_overwrite hi (by omega) hfirst
  rwa [List.take_length, List.drop_length, overwrite_nil] at hwrap

end Bytes

namespace Ring

/-- The storage as one sees it from the head on, all the way round. -/
def unrolled (r : Ring) : Bytes := r.storage.rotate r.head

structure Valid (r : Ring) : Prop where
  size_le : r.size ≤ r.capacity
  head_lt : r.head = 0 ∨ r.head < r.capacity
  tail_eq : r.tail = (r.head + r.size) % r.capacity

variable {r : Ring} {data : Bytes}

theorem length_unrolled (r : Ring) : r.unrolled.length = r.capacity := List.length_rotate ..

namespace Valid

theorem head_lt_of_size (h : r.Valid) (hsize : r.size ≠ 0) : r.head < r.capacity := by
  have hle := h.size_le
  have hlt := h.head_lt
  omega

theorem tail_le (h : r.Valid) : r.tail ≤ r.storage.length := by
  have hle := h.size_le
  have hlt := h.head_lt
  rw [h.tail_eq]
  by_cases hcap : r.capacity = 0
  · have hstart : r.head + r.size = 0 := by omega
    rw [hstart, Nat.zero_mod]
    exact Nat.zero_le _
  · exact Nat.le_of_lt (Nat.mod_lt _ (by omega))

theorem toList_eq (h : r.Valid) : r.toList = r.unrolled.take r.size := by
  have hle := h.size_le
  unfold toList slices unrolled
  by_cases hsize : r.size = 0
  · rw [if_pos hsize, hsize]
    rfl
  · have hhead : r.head ≤ r.storage.length := Nat.le_of_lt (h.head_lt_of_size hsize)
    have hcap : r.capacity = r.storage.length := rfl
    have hback : (r.storage.drop r.head).length = r.capacity - r.head := List.length_drop
    rw [if_neg hsize, List.rotate_eq_drop_append_take hhead]
    by_cases hend : r.head + r.size ≤ r.capacity
    · rw [if_pos hend, List.take_append_of_le_length (by omega)]
      exact List.append_nil _
    · have hrest : r.size - (r.capacity - r.head) = r.head + r.size - r.capacity := by omega
      have hall : (r.storage.drop r.head).take r.size = r.storage.drop r.head :=
        List.take_of_length_le (by omega)
      rw [if_neg hend, List.take_append, hback, hall, hrest, List.take_take, Nat.min_eq_left (by omega)]

theorem length_toList (h : r.Valid) : r.toList.length = r.size := by
  rw [h.toList_eq, List.length_take, length_unrolled]
  exact Nat.min_eq_left h.size_le

theorem rotate_tail (h : r.Valid) : r.storage.rotate r.tail = r.unrolled.rotate r.size := by
  have htail : r.tail = (r.head + r.size) % r.storage.length := h.tail_eq
  rw [unrolled, List.rotate_rotate, htail, List.rotate_mod]

end Valid

/-- The oldest `n` bytes, cut where the contents wrap. -/
def pieces (r : Ring) (n : Nat) : Bytes × Bytes :=
  let first := min n r.slices.1.length
  (r.slices.1.take first, r.slices.2.take (n - first))

theorem pieces_append (r : Ring) (n : Nat) : (r.pieces n).1 ++ (r.pieces n).2 = r.toList.take n := by
  have hrest : n - min n r.slices.1.length = n - r.slices.1.length := by omega
  rw [pieces, toList, List.take_append, hrest, ← List.take_eq_take_min]

theorem fst_write_le (r : Ring) (data : Bytes) : (r.write data).1 ≤ data.length := by
  unfold write
  by_cases hcount : min data.length r.free = 0
  · rw [if_pos hcount]
    exact Nat.zero_le _
  · rw [if_neg hcount]
    exact Nat.min_le_left ..

/-- Only what fits is looked at. -/
theorem write_take (r : Ring) (data : Bytes) : r.write data = r.write (data.take r.free) := by
  have hlen : (data.take r.free).length = min r.free data.length := List.length_take
  have hcount : min (data.take r.free).length r.free = min data.length r.free := by omega
  simp only [write, hcount]
  by_cases h : min data.length r.free = 0
  · rw [if_pos h, if_pos h]
  · have hfirst : min (min (min data.length r.free) (r.capacity - r.tail)) r.free =
        min (min data.length r.free) (r.capacity - r.tail) := by omega
    have hused : min (min data.length r.free) r.free = min data.length r.free := by omega
    rw [if_neg h, if_neg h, List.take_take, List.take_take, hfirst, hused]

def written (r : Ring) (data : Bytes) : Bytes :=
  let first := min data.length (r.capacity - r.tail)
  (r.storage.overwrite r.tail (data.take first)).overwrite 0 (data.drop first)

/-- The ring after `n` of its bytes were read, with the tail where it was. -/
def moved (r : Ring) (n : Nat) : Ring := { r with head := (r.head + n) % r.capacity, size := r.size - n }

namespace Valid

theorem write_eq (h : r.Valid) (hfits : data.length ≤ r.free) : r.write data = (data.length,
    ⟨r.written data, r.head, (r.tail + data.length) % r.capacity, r.size + data.length⟩) := by
  simp only [Ring.write, written, Nat.min_eq_left hfits, List.take_length]
  by_cases hcount : data.length = 0
  · have hdata := List.length_eq_zero_iff.mp hcount
    have htail : r.tail % r.capacity = r.tail := by rw [h.tail_eq, Nat.mod_mod]
    rw [if_pos hcount, hdata, List.take_nil, List.drop_nil, Bytes.overwrite_nil, Bytes.overwrite_nil,
      List.length_nil, Nat.add_zero, Nat.add_zero, htail]
  · rw [if_neg hcount]

theorem length_written (h : r.Valid) (hfits : data.length ≤ r.free) :
    (r.written data).length = r.storage.length := by
  have htail := h.tail_le
  have hfree : r.free = r.storage.length - r.size := rfl
  have hcap : r.capacity = r.storage.length := rfl
  have hfront : (r.storage.overwrite r.tail
      (data.take (min data.length (r.capacity - r.tail)))).length = r.storage.length := by
    apply Bytes.length_overwrite
    rw [List.length_take]
    omega
  refine (Bytes.length_overwrite ?_).trans hfront
  rw [hfront, List.length_drop]
  omega

theorem capacity_write (h : r.Valid) (hfits : data.length ≤ r.free) :
    (r.write data).2.capacity = r.capacity := by
  rw [h.write_eq hfits]
  exact h.length_written hfits

theorem write_of_le (h : r.Valid) (hfits : data.length ≤ r.free) : (r.write data).2.Valid := by
  have hcap := h.capacity_write hfits
  have hfree : r.free = r.capacity - r.size := rfl
  have hle := h.size_le
  constructor
  · rw [hcap, h.write_eq hfits]
    change r.size + data.length ≤ r.capacity
    omega
  · rw [hcap, h.write_eq hfits]
    exact h.head_lt
  · rw [hcap, h.write_eq hfits]
    change (r.tail + data.length) % r.capacity = (r.head + (r.size + data.length)) % r.capacity
    rw [h.tail_eq, Nat.mod_add_mod, Nat.add_assoc]

theorem write (h : r.Valid) (data : Bytes) : (r.write data).2.Valid := by
  rw [write_take]
  exact h.write_of_le (List.length_take_le ..)

theorem unrolled_write (h : r.Valid) (hfits : data.length ≤ r.free) :
    (r.write data).2.unrolled = r.unrolled.overwrite r.size data := by
  have hlen := h.length_written hfits
  have hle := h.size_le
  have hfree : r.free = r.storage.length - r.size := rfl
  have hcap : r.capacity = r.storage.length := rfl
  have hroom : r.size + data.length ≤ r.unrolled.length := by
    rw [length_unrolled]
    omega
  rw [h.write_eq hfits]
  -- a rotation can be undone, and from the tail both sides look the same
  apply List.rotate_injective r.size
  calc ((r.written data).rotate r.head).rotate r.size
    _ = (r.written data).rotate r.tail := by
      rw [List.rotate_rotate, h.tail_eq, hcap, ← hlen, List.rotate_mod]
    _ = Bytes.overwrite (r.storage.rotate r.tail) 0 data :=
      Bytes.rotate_overwrite h.tail_le (by omega) rfl
    _ = Bytes.overwrite (r.unrolled.rotate r.size) 0 data := by rw [h.rotate_tail]
    _ = (r.unrolled.overwrite r.size data).rotate r.size := (Bytes.rotate_overwrite_of_le hroom).symm

theorem toList_write (h : r.Valid) (hfits : data.length ≤ r.free) :
    (r.write data).2.toList = r.toList ++ data := by
  have hfront : (r.unrolled.take r.size ++ data).length = r.size + data.length := by
    rw [List.length_append, List.length_take, length_unrolled, Nat.min_eq_left h.size_le]
  have hsize : (r.write data).2.size = r.size + data.length := by rw [h.write_eq hfits]
  rw [(h.write_of_le hfits).toList_eq, h.unrolled_write hfits, hsize, h.toList_eq, Bytes.overwrite,
    List.take_left' hfront]

theorem moved (h : r.Valid) {n : Nat} (hn : n ≤ r.size) : (r.moved n).Valid := by
  have hle := h.size_le
  have hlt := h.head_lt
  constructor
  · exact Nat.le_trans (Nat.sub_le ..) hle
  · change (r.head + n) % r.capacity = 0 ∨ (r.head + n) % r.capacity < r.capacity
    by_cases hcap : r.capacity = 0
    · have hstart : r.head + n = 0 := by omega
      rw [hstart, Nat.zero_mod]
      exact .inl rfl
    · exact .inr (Nat.mod_lt _ (by omega))
  · change r.tail = ((r.head + n) % r.capacity + (r.size - n)) % r.capacity
    rw [Nat.mod_add_mod, Nat.add_assoc, Nat.add_sub_cancel' hn]
    exact h.tail_eq

theorem toList_moved (h : r.Valid) {n : Nat} (hn : n ≤ r.size) :
    (r.moved n).toList = r.toList.drop n := by
  have hle := h.size_le
  have hlen := length_unrolled r
  have hunrolled : (r.moved n).unrolled = r.unrolled.rotate n := by
    rw [unrolled, unrolled, List.rotate_rotate]
    exact List.rotate_mod ..
  have hroom : r.size - n ≤ (r.unrolled.drop n).length := by
    rw [List.length_drop]
    omega
  have hsize : (r.moved n).size = r.size - n := rfl
  rw [(h.moved hn).toList_eq, h.toList_eq, hunrolled, hsize, List.drop_take,
    List.rotate_eq_drop_append_take (by omega), List.take_append_of_le_length hroom]

theorem reset (r : Ring) : r.reset.Valid where
  size_le := Nat.zero_le _
  head_lt := .inl rfl
  tail_eq := (Nat.zero_mod _).symm

/-- Rewinding an emptied ring is not seen from outside. -/
theorem advance (h : r.Valid) {n : Nat} (hn : n ≤ r.size) :
    (r.advance n).Valid ∧ (r.advance n).capacity = r.capacity ∧
      (r.advance n).toList = r.toList.drop n := by
  unfold Ring.advance
  by_cases hzero : n = 0
  · rw [if_pos hzero, hzero]
    exact ⟨h, rfl, rfl⟩
  · rw [if_neg hzero]
    by_cases hempty : r.size - n = 0
    · have hall : r.toList.length ≤ n := by
        rw [h.length_toList]
        omega
      rw [if_pos hempty, List.drop_eq_nil_of_le hall]
      exact ⟨.reset r, rfl, rfl⟩
    · rw [if_neg hempty]
      exact ⟨h.moved hn, rfl, h.toList_moved hn⟩

theorem peek_eq (h : r.Valid) (n : Nat) : r.peek n = r.toList.take n := by
  have hall : r.toList.take (min n r.size) = r.toList.take n := by
    rw [← h.length_toList, ← List.take_eq_take_min]
  have hpieces := pieces_append r (min n r.size)
  rw [← hall]
  by_cases hcount : min n r.size = 0
  · rw [peek, hcount]
    rfl
  · rw [← hpieces]
    exact if_neg hcount

end Valid

end Ring

end GameHost
