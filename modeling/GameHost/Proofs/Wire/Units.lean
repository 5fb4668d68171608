import GameHost.Proofs.Sequencing
import GameHost.Wire.Decode
import GameHost.Wire.Value

namespace GameHost

open FieldValue (isPacket)

namespace Bytes

variable {bs unit rest : Bytes} {n : Nat} {fault : DecodeFault}

theorem toLE_ofLE_of_length (h : bs.length = n) : toLE n (ofLE bs) = bs := h ▸ toLE_ofLE bs

theorem ofLE_take_lt (n : Nat) (bs : Bytes) : ofLE (bs.take n) < limit n := by
  induction n generalizing bs with
  | zero => exact Nat.one_pos
  | succ n ih =>
    cases bs with
    | nil =>
      have hn := ih []
      rw [List.take_nil, limit] at *
      omega
    | cons b bs =>
      have hb : b.toNat < 256 := b.toNat_lt
      have hbs := ih bs
      rw [List.take_succ_cons, ofLE, limit]
      omega

theorem cut_append (unit rest : Bytes) : (unit ++ rest).cut unit.length = .ok (unit, rest) := by
  simp [cut]

theorem cut_eq_ok : bs.cut n = .ok (unit, rest) ↔ bs = unit ++ rest ∧ unit.length = n := by
  constructor
  · intro h
    unfold cut at h
    split at h
    · next hn =>
      simp only [Except.ok.injEq, Prod.mk.injEq] at h
      obtain ⟨rfl, rfl⟩ := h
      exact ⟨(List.take_append_drop n bs).symm, List.length_take_of_le hn⟩
    · cases h
  · rintro ⟨rfl, rfl⟩
    exact cut_append unit rest

theorem cut_eq_error : bs.cut n = .error fault ↔ fault = .truncated ∧ bs.length < n := by
  unfold cut
  split
  · simp; omega
  · simp [eq_comm]; omega

theorem isPacket_iff : isPacket unit ↔
    lengthWidth ≤ unit.length ∧ ofLE (unit.take lengthWidth) + lengthWidth = unit.length := by
  simp [isPacket]

theorem cutPrefixed_eq_ok :
    bs.cutPrefixed = .ok (unit, rest) ↔ isPacket unit ∧ bs = unit ++ rest := by
  unfold cutPrefixed
  rw [isPacket_iff]
  constructor
  · intro h
    obtain ⟨⟨len, more⟩, hlen, hmore⟩ := Except.bind_eq_ok.mp h
    obtain ⟨⟨content, left⟩, hcontent, hleft⟩ := Except.bind_eq_ok.mp hmore
    obtain ⟨rfl, rfl⟩ := Prod.mk.inj (Except.pure_eq_ok.mp hleft)
    obtain ⟨rfl, hl⟩ := cut_eq_ok.mp hlen
    obtain ⟨rfl, hc⟩ := cut_eq_ok.mp hcontent
    refine ⟨⟨?_, ?_⟩, ?_⟩
    · simp only [List.length_append]; omega
    · rw [← hl, List.take_left, List.length_append, hc, Nat.add_comm]
    · exact (List.append_assoc ..).symm
  · rintro ⟨⟨hl, hc⟩, rfl⟩
    have hsplit := List.take_append_drop lengthWidth unit
    refine Except.bind_eq_ok.mpr ⟨(unit.take lengthWidth, unit.drop lengthWidth ++ rest), ?_, ?_⟩
    · refine cut_eq_ok.mpr ⟨?_, List.length_take_of_le hl⟩
      rw [← List.append_assoc, hsplit]
    · refine Except.bind_eq_ok.mpr ⟨(unit.drop lengthWidth, rest), ?_, ?_⟩
      · refine cut_eq_ok.mpr ⟨rfl, ?_⟩
        rw [List.length_drop]
        omega
      · rw [Except.pure_eq_ok, hsplit]

theorem cutPrefixed_eq_error (h : bs.cutPrefixed = .error fault) : fault = .truncated := by
  unfold cutPrefixed at h
  rcases Except.bind_eq_error.mp h with h | ⟨⟨len, more⟩, -, h⟩
  · exact (cut_eq_error.mp h).1
  · rcases Except.bind_eq_error.mp h with h | ⟨⟨content, left⟩, -, h⟩
    · exact (cut_eq_error.mp h).1
    · exact absurd h Except.pure_ne_error

theorem cutUnits_flatten {units : List Bytes} (h : ∀ u ∈ units, isPacket u) (rest : Bytes) :
    cutUnits units.length (units.flatten ++ rest) = .ok (units.flatten, rest) := by
  induction units with
  | nil => rfl
  | cons u us ih =>
    have hu : cutPrefixed (u ++ (us.flatten ++ rest)) = .ok (u, us.flatten ++ rest) :=
      cutPrefixed_eq_ok.mpr ⟨h u List.mem_cons_self, rfl⟩
    have hus := ih fun v hv ↦ h v (List.mem_cons_of_mem u hv)
    rw [List.flatten_cons, List.append_assoc, List.length_cons, cutUnits]
    exact Except.bind_eq_ok.mpr ⟨_, hu, Except.bind_eq_ok.mpr ⟨_, hus, rfl⟩⟩

theorem cutUnits_eq_ok (h : bs.cutUnits n = .ok (unit, rest)) :
    ∃ units : List Bytes, (∀ u ∈ units, isPacket u) ∧ units.length = n ∧ unit = units.flatten ∧
      bs = unit ++ rest := by
  induction n generalizing bs unit rest with
  | zero =>
    simp only [cutUnits, Except.ok.injEq, Prod.mk.injEq] at h
    obtain ⟨rfl, rfl⟩ := h
    exact ⟨[], by simp, rfl, rfl, rfl⟩
  | succ n ih =>
    rw [cutUnits] at h
    obtain ⟨⟨first, more⟩, hfirst, hmore⟩ := Except.bind_eq_ok.mp h
    obtain ⟨⟨others, left⟩, hothers, hleft⟩ := Except.bind_eq_ok.mp hmore
    obtain ⟨rfl, rfl⟩ := Prod.mk.inj (Except.pure_eq_ok.mp hleft)
    obtain ⟨hp, rfl⟩ := cutPrefixed_eq_ok.mp hfirst
    obtain ⟨units, hunits, rfl, rfl, rfl⟩ := ih hothers
    refine ⟨first :: units, ?_, rfl, rfl, (List.append_assoc ..).symm⟩
    intro u hu
    rcases List.mem_cons.mp hu with rfl | hu
    · exact hp
    · exact hunits u hu

theorem cutUnits_eq_error (h : bs.cutUnits n = .error fault) : fault = .truncated := by
  induction n generalizing bs with
  | zero => cases h
  | succ n ih =>
    rw [cutUnits] at h
    rcases Except.bind_eq_error.mp h with h | ⟨⟨first, more⟩, -, h⟩
    · exact cutPrefixed_eq_error h
    · rcases Except.bind_eq_error.mp h with h | ⟨⟨others, left⟩, -, h⟩
      · exact ih h
      · exact absurd h Except.pure_ne_error

end Bytes

namespace PacketIter

theorem next?_append {unit : Bytes} (h : isPacket unit) (more : Bytes) (n : Nat) :
    (⟨unit ++ more, n + 1⟩ : PacketIter).next? = some (unit, ⟨more, n⟩) := by
  obtain ⟨hl, hlen⟩ := Bytes.isPacket_iff.mp h
  have hle : unit.length ≤ (unit ++ more).length := by simp
  have hmore : ¬ (n + 1 = 0 ∨ (unit ++ more).length < lengthWidth) := by omega
  simp only [next?, if_neg hmore, List.take_append_of_le_length hl, hlen, Nat.min_eq_left hle,
    List.take_left, List.drop_left, Nat.add_sub_cancel]

theorem toList_flatten {units : List Bytes} (h : ∀ u ∈ units, isPacket u) :
    (⟨units.flatten, units.length⟩ : PacketIter).toList = units := by
  rw [toList]
  induction units with
  | nil => rfl
  | cons u us ih =>
    have hu := next?_append (h u List.mem_cons_self) us.flatten us.length
    have hus := ih fun v hv ↦ h v (List.mem_cons_of_mem u hv)
    simp only [List.length_cons, List.flatten_cons, toList.go, hu]
    exact congrArg (u :: ·) hus

end PacketIter
end GameHost
