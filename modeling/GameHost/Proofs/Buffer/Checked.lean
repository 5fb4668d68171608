import GameHost.Proofs.Buffer.Queue

/-!
Rings that check every index, every difference and every remainder.

These operations copy run by run between the storage and the caller's bytes, and have no result where
something is out of range. On a valid ring they give what the operations of `Ring` give.
-/

namespace GameHost.Ring

variable (r : Ring)

def free? : Option Nat := Checked.sub r.capacity r.size

def write? (data : Bytes) : Option (Nat × Ring) := do
  let free ← r.free?
  let count := min data.length free
  if count = 0 then return (0, r)
  else
    let room ← Checked.sub r.capacity r.tail
    let first := min count room
    let storage ← r.storage.copy? r.tail (r.tail + first) data 0 first
    let more ← Checked.sub count first
    let storage ← storage.copy? 0 more data first count
    let tail ← Checked.mod (r.tail + count) r.capacity
    return (count, { r with storage, tail, size := r.size + count })

def writeAll? (data : Bytes) : Option (Bool × Ring) := do
  let free ← r.free?
  if free < data.length then return (false, r)
  else
    let (_, r) ← r.write? data
    return (true, r)

def slices? : Option (Bytes × Bytes) :=
  if r.size = 0 then return ([], [])
  else if r.head + r.size ≤ r.capacity then do
    let run ← r.storage.slice? r.head (r.head + r.size)
    return (run, [])
  else do
    let wrapped ← Checked.sub (r.head + r.size) r.capacity
    let front ← r.storage.slice? r.head r.storage.length
    let back ← r.storage.slice? 0 wrapped
    return (front, back)

def peek? (out : Bytes) : Option (Nat × Bytes) :=
  let count := min out.length r.size
  if count = 0 then return (0, out)
  else do
    let (a, b) ← r.slices?
    let first := min count a.length
    let out ← out.copy? 0 first a 0 first
    let more ← Checked.sub count first
    let out ← out.copy? first count b 0 more
    return (count, out)

def advance? (count : Nat) : Option Ring :=
  if count = 0 then return r
  else do
    let head ← Checked.mod (r.head + count) r.capacity
    let size ← Checked.sub r.size count
    if size = 0 then return { r with head := 0, tail := 0, size }
    else return { r with head, size }

def read? (out : Bytes) : Option ((Nat × Bytes) × Ring) := do
  let (count, out) ← r.peek? out
  let r ← r.advance? count
  return ((count, out), r)

def forward? (count : Nat) : Option (Bool × Ring) :=
  if r.size < count then return (false, r)
  else do
    let r ← r.advance? count
    return (true, r)

def consume? (dst src : Ring) : Option (Nat × Ring × Ring) := do
  let free ← dst.free?
  let count := min src.size free
  let (a, b) ← src.slices?
  let first := min count a.length
  let front ← a.slice? 0 first
  let (n, dst) ← dst.write? front
  let more ← Checked.sub count first
  let back ← b.slice? 0 more
  let (m, dst) ← dst.write? back
  let src ← src.advance? (n + m)
  return (n + m, dst, src)

variable {r}

namespace Valid

variable (h : r.Valid)

include h

theorem free?_eq : r.free? = some r.free := Checked.sub_eq h.size_le

theorem write?_eq (data : Bytes) : r.write? data = some (r.write data) := by
  rw [write?, h.free?_eq, Ring.write]
  simp only [Option.bind_eq_bind, Option.bind_some]
  by_cases hcount : min data.length r.free = 0
  · rw [if_pos hcount, if_pos hcount]
    rfl
  · have hfree : r.free = r.storage.length - r.size := rfl
    have hcap : r.capacity = r.storage.length := rfl
    have htail : r.tail ≤ r.capacity := h.tail_le
    generalize hc : min data.length r.free = count at hcount ⊢
    rw [if_neg hcount, if_neg hcount, Checked.sub_eq htail, Option.bind_some]
    generalize hf : min count (r.capacity - r.tail) = first
    have hlen : (r.storage.overwrite r.tail (data.take first)).length = r.storage.length := by
      apply Bytes.length_overwrite
      rw [List.length_take]
      omega
    rw [Bytes.copy?_eq (by omega) (by omega) (by omega) (by omega), List.drop_zero, Option.bind_some,
      Checked.sub_eq (by omega), Option.bind_some,
      Bytes.copy?_eq (by omega) (by omega) (by omega) (by omega), Option.bind_some,
      Checked.mod_eq (by omega)]
    rfl

theorem writeAll?_eq (data : Bytes) : r.writeAll? data = some (r.writeAll data) := by
  rw [writeAll?, h.free?_eq, Option.bind_eq_bind, Option.bind_some, Ring.writeAll]
  by_cases hfull : r.free < data.length
  · rw [if_pos hfull, if_pos hfull]
    rfl
  · rw [if_neg hfull, if_neg hfull, h.write?_eq]
    rfl

theorem slices?_eq : r.slices? = some r.slices := by
  have hle := h.size_le
  have hcap : r.capacity = r.storage.length := rfl
  rw [slices?, slices]
  by_cases hsize : r.size = 0
  · rw [if_pos hsize, if_pos hsize]
    rfl
  · have hhead := h.head_lt_of_size hsize
    rw [if_neg hsize, if_neg hsize]
    by_cases hend : r.head + r.size ≤ r.capacity
    · rw [if_pos hend, if_pos hend, Bytes.slice?_eq (by omega)]
      rfl
    · rw [if_neg hend, if_neg hend, Checked.sub_eq (by omega), Bytes.slice?_length (by omega)]
      simp only [Option.bind_eq_bind, Option.bind_some]
      rw [Bytes.slice?_zero (by omega)]
      rfl

theorem advance?_eq {n : Nat} (hn : n ≤ r.size) : r.advance? n = some (r.advance n) := by
  have hle := h.size_le
  rw [advance?, Ring.advance]
  by_cases hzero : n = 0
  · rw [if_pos hzero, if_pos hzero]
    rfl
  · rw [if_neg hzero, if_neg hzero, Checked.mod_eq (by omega), Checked.sub_eq hn]
    simp only [Option.bind_eq_bind, Option.bind_some]
    by_cases hempty : r.size - n = 0
    · rw [if_pos hempty, if_pos hempty, hempty]
      rfl
    · rw [if_neg hempty, if_neg hempty]
      rfl

theorem forward?_eq (n : Nat) : r.forward? n = some (r.forward n) := by
  rw [forward?, forward]
  by_cases hshort : r.size < n
  · rw [if_pos hshort, if_pos hshort]
    rfl
  · rw [if_neg hshort, if_neg hshort, h.advance?_eq (by omega)]
    rfl

theorem length_slices : r.slices.1.length + r.slices.2.length = r.size := by
  rw [← List.length_append]
  exact h.length_toList

theorem peek?_eq (out : Bytes) :
    r.peek? out = some ((r.peek out.length).length, out.overwrite 0 (r.peek out.length)) := by
  rw [peek?, Ring.peek]
  by_cases hcount : min out.length r.size = 0
  · simp only [hcount, if_true, Bytes.overwrite_nil]
    rfl
  · have hsize := h.length_slices
    simp only [if_neg hcount, h.slices?_eq, Option.bind_eq_bind, Option.bind_some]
    generalize hc : min out.length r.size = count
    generalize hf : min count r.slices.1.length = first
    have hfront : (r.slices.1.take first).length = first := List.length_take_of_le (by omega)
    have hback : (r.slices.2.take (count - first)).length = count - first :=
      List.length_take_of_le (by omega)
    have hout : (out.overwrite 0 (r.slices.1.take first)).length = out.length :=
      Bytes.length_overwrite (by omega)
    have hboth := Bytes.overwrite_overwrite out (r.slices.1.take first) (r.slices.2.take (count - first))
    rw [hfront] at hboth
    rw [Bytes.copy?_eq (by omega) (by omega) (by omega) (by omega), Option.bind_some,
      Checked.sub_eq (by omega), Option.bind_some, List.drop_zero,
      Bytes.copy?_eq (by omega) (by omega) (by omega) (by omega), Option.bind_some, List.drop_zero,
      hboth, List.length_append, hfront, hback, Nat.add_sub_cancel' (by omega)]
    rfl

theorem read?_eq (out : Bytes) : r.read? out =
    some (((r.read out.length).1.length, out.overwrite 0 (r.read out.length).1), (r.read out.length).2) := by
  have hlen : (r.peek out.length).length ≤ r.size := by
    rw [h.peek_eq, List.length_take, h.length_toList]
    omega
  simp only [read?, h.peek?_eq, Option.bind_eq_bind, Option.bind_some, h.advance?_eq hlen]
  rfl

end Valid

theorem consume?_eq {into out : Ring} (hinto : into.Valid) (hout : out.Valid) :
    consume? into out = some (consume into out) := by
  have hsize := hout.length_slices
  simp only [consume?, Ring.consume, hinto.free?_eq, hout.slices?_eq, Option.bind_eq_bind, Option.bind_some]
  generalize hc : min out.size into.free = count
  generalize hf : min count out.slices.1.length = first
  have hn := fst_write_le into (out.slices.1.take first)
  have hm := fst_write_le (into.write (out.slices.1.take first)).2 (out.slices.2.take (count - first))
  rw [List.length_take] at hn hm
  rw [Bytes.slice?_zero (by omega), Option.bind_some, hinto.write?_eq, Option.bind_some,
    Checked.sub_eq (by omega), Option.bind_some, Bytes.slice?_zero (by omega), Option.bind_some,
    (hinto.write _).write?_eq, Option.bind_some, hout.advance?_eq (by omega), Option.bind_some]
  rfl

end GameHost.Ring
