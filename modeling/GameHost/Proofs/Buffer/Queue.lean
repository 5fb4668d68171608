import GameHost.Proofs.Buffer.Contents

namespace GameHost

@[ext]
structure Queue where
  capacity : Nat
  contents : Bytes
  bounded : contents.length ≤ capacity

namespace Queue

def empty (capacity : Nat) : Queue := ⟨capacity, [], Nat.zero_le _⟩

variable (q : Queue)

def free : Nat := q.capacity - q.contents.length

def push (data : Bytes) : Queue where
  capacity := q.capacity
  contents := q.contents ++ data.take q.free
  bounded := by
    have h := q.bounded
    rw [List.length_append, List.length_take, free]
    omega

def pop (n : Nat) : Queue where
  capacity := q.capacity
  contents := q.contents.drop n
  bounded := by
    have h := q.bounded
    rw [List.length_drop]
    omega

theorem free_push (data : Bytes) : (q.push data).free = q.free - data.length := by
  have hlen : (q.contents ++ data.take q.free).length = q.contents.length + min q.free data.length := by
    rw [List.length_append, List.length_take]
  have hfree : q.free = q.capacity - q.contents.length := rfl
  change q.capacity - (q.contents ++ data.take q.free).length = _
  omega

theorem take_free_append (x y : Bytes) :
    (x ++ y).take q.free = x.take q.free ++ y.take (q.push x).free := by
  rw [List.take_append, free_push]

theorem push_push (x y : Bytes) : (q.push x).push y = q.push (x ++ y) := by
  ext1
  · rfl
  · change q.contents ++ x.take q.free ++ y.take (q.push x).free = q.contents ++ (x ++ y).take q.free
    rw [take_free_append, List.append_assoc]

end Queue

namespace Ring

structure Holds (r : Ring) (q : Queue) : Prop where
  valid : r.Valid
  capacity_eq : r.capacity = q.capacity
  toList_eq : r.toList = q.contents

theorem holds_ofCapacity (n : Nat) : (ofCapacity n).Holds (.empty n) where
  valid := Valid.reset (ofCapacity n)
  capacity_eq := List.length_replicate
  toList_eq := rfl

namespace Holds

variable {r : Ring} {q : Queue} (h : r.Holds q)

include h

theorem size_eq : r.size = q.contents.length := by
  rw [← h.toList_eq, h.valid.length_toList]

theorem free_eq : r.free = q.free := by
  rw [free, Queue.free, h.capacity_eq, h.size_eq]

theorem size_add_free : r.size + r.free = r.capacity := Nat.add_sub_cancel' h.valid.size_le

theorem front_ne_nil (hne : q.contents ≠ []) : r.slices.1 ≠ [] := by
  have hpos := List.length_pos_iff.mpr hne
  have hsize := h.size_eq
  have hhead := h.valid.head_lt_of_size (by omega)
  have hcap : r.capacity = r.storage.length := rfl
  apply List.ne_nil_of_length_pos
  rw [slices, if_neg (by omega)]
  split
  · rw [List.length_take, List.length_drop]
    omega
  · rw [List.length_drop]
    omega

theorem write (data : Bytes) :
    (r.write data).1 = (data.take q.free).length ∧ (r.write data).2.Holds (q.push data) := by
  have hfits : (data.take r.free).length ≤ r.free := List.length_take_le ..
  rw [write_take, ← h.free_eq]
  refine ⟨?_, h.valid.write_of_le hfits, ?_, ?_⟩
  · rw [h.valid.write_eq hfits]
  · rw [h.valid.capacity_write hfits, h.capacity_eq]
    rfl
  · rw [h.valid.toList_write hfits, h.toList_eq, h.free_eq]
    rfl

theorem peek (n : Nat) : r.peek n = q.contents.take n := by
  rw [h.valid.peek_eq, h.toList_eq]

theorem advance {n : Nat} (hn : n ≤ q.contents.length) : (r.advance n).Holds (q.pop n) := by
  have hle : n ≤ r.size := by rwa [h.size_eq]
  obtain ⟨hvalid, hcap, hlist⟩ := h.valid.advance hle
  refine ⟨hvalid, ?_, ?_⟩
  · rw [hcap, h.capacity_eq]
    rfl
  · rw [hlist, h.toList_eq]
    rfl

end Holds

theorem consume_eq (dst src : Ring) {x y : Bytes} (h : src.pieces (min src.size dst.free) = (x, y)) :
    consume dst src = ((dst.write x).1 + ((dst.write x).2.write y).1, ((dst.write x).2.write y).2,
      src.advance ((dst.write x).1 + ((dst.write x).2.write y).1)) := by
  obtain ⟨rfl, rfl⟩ := Prod.mk.inj h
  rfl

theorem Holds.consume {into out : Ring} {p q : Queue} {moved : Bytes} (hinto : into.Holds p)
    (hout : out.Holds q) (hmoved : moved = q.contents.take p.free) :
    (consume into out).1 = moved.length ∧ (consume into out).2.1.Holds (p.push moved) ∧
      (consume into out).2.2.Holds (q.pop moved.length) := by
  have hboth := pieces_append out (min out.size into.free)
  cases hpieces : out.pieces (min out.size into.free) with
  | mk x y =>
    have hxy : x ++ y = moved := by
      rw [hpieces, hout.toList_eq, hout.size_eq, hinto.free_eq, Nat.min_comm,
        ← List.take_eq_take_min, ← hmoved] at hboth
      exact hboth
    have hall : moved.take p.free = moved := by
      rw [hmoved]
      exact List.take_of_length_le (List.length_take_le ..)
    have hle : moved.length ≤ q.contents.length := by
      rw [hmoved]
      exact List.length_take_le' ..
    obtain ⟨hn, hfirst⟩ := hinto.write x
    obtain ⟨hm, hsecond⟩ := hfirst.write y
    have hcount : (into.write x).1 + ((into.write x).2.write y).1 = moved.length := by
      rw [hn, hm, ← List.length_append, ← Queue.take_free_append, hxy, hall]
    rw [Queue.push_push, hxy] at hsecond
    rw [consume_eq into out hpieces, hcount]
    exact ⟨rfl, hsecond, hout.advance hle⟩

end Ring

end GameHost
