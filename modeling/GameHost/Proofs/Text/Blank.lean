import GameHost.Text.Blank
import Mathlib.Data.List.DropRight

namespace GameHost.Text

structure Trimmed (cs : List Char) : Prop where
  head {c} (h : cs.head? = some c) : isBlank c = false
  last {c} (h : cs.getLast? = some c) : isBlank c = false

variable {cs : List Char} {c : Char}

theorem trimEnd_eq (cs : List Char) : trimEnd cs = cs.rdropWhile isBlank :=
  rfl

theorem trim_sublist (cs : List Char) : (trim cs).Sublist cs :=
  (List.rdropWhile_prefix isBlank _).sublist.trans (List.dropWhile_sublist isBlank)

theorem dropWhile_concat {p : Char → Bool} (l : List Char) (hc : p c = false) :
    ∃ l', (l ++ [c]).dropWhile p = l' ++ [c] := by
  rw [List.dropWhile_append]
  split
  · exact ⟨[], List.dropWhile_cons_of_neg (by simpa using hc)⟩
  · exact ⟨_, rfl⟩

theorem trimEnd_cons (l : List Char) (hc : isBlank c = false) : ∃ l', trimEnd (c :: l) = c :: l' := by
  obtain ⟨l', hl'⟩ := dropWhile_concat l.reverse hc
  refine ⟨l'.reverse, ?_⟩
  rw [trimEnd, List.reverse_cons, hl', List.reverse_append, List.reverse_singleton, List.singleton_append]

theorem head?_trim (h : ∀ c, cs.head? = some c → isBlank c = false) : (trim cs).head? = cs.head? := by
  cases cs with
  | nil => rfl
  | cons c cs =>
    have hc := h c rfl
    obtain ⟨l, hl⟩ := trimEnd_cons cs hc
    rw [trim, List.dropWhile_cons_of_neg (by simpa using hc), hl, List.head?_cons, List.head?_cons]

theorem getLast?_trim (h : ∀ c, cs.getLast? = some c → isBlank c = false) : (trim cs).getLast? = cs.getLast? := by
  cases hlast : cs.getLast? with
  | none =>
    rw [List.getLast?_eq_none_iff.1 hlast]
    rfl
  | some c =>
    have hc := h c hlast
    obtain ⟨l, rfl⟩ := List.getLast?_eq_some_iff.1 hlast
    obtain ⟨l', hl'⟩ := dropWhile_concat l hc
    rw [trim, hl', trimEnd_eq, List.rdropWhile_concat_neg _ _ _ (by simpa using hc), List.getLast?_concat]

theorem trim_eq_self (h : Trimmed cs) : trim cs = cs := by
  have hstart : cs.dropWhile isBlank = cs := by
    cases cs with
    | nil => rfl
    | cons c cs => exact List.dropWhile_cons_of_neg (by simpa using h.head rfl)
  rw [trim, hstart, trimEnd_eq, List.rdropWhile_eq_self_iff]
  intro hne
  rw [h.last (List.getLast?_eq_some_getLast hne)]
  exact Bool.false_ne_true

theorem trimmed_trim (cs : List Char) : Trimmed (trim cs) where
  head {c} h := by
    have hhead := List.head?_dropWhile_not isBlank cs
    cases hrest : cs.dropWhile isBlank with
    | nil => simp [trim, hrest, trimEnd] at h
    | cons c' l =>
      rw [hrest] at hhead
      obtain ⟨l', hl'⟩ := trimEnd_cons l hhead
      rw [trim, hrest, hl'] at h
      rwa [← Option.some.inj h]
  last {c} h := by
    obtain ⟨l, hl⟩ := List.getLast?_eq_some_iff.1 h
    have hne : (cs.dropWhile isBlank).rdropWhile isBlank ≠ [] := List.ne_nil_of_mem (hl ▸ List.mem_concat_self)
    have hlast := List.rdropWhile_last_not isBlank _ hne
    have hc := List.getLast?_eq_some_getLast hne
    rw [← Option.some.inj (hc.symm.trans h)]
    exact Bool.eq_false_iff.2 hlast

theorem trim_eq_self_iff : trim cs = cs ↔ Trimmed cs := by
  constructor
  · intro h
    rw [← h]
    exact trimmed_trim cs
  · exact trim_eq_self

theorem trim_trim (cs : List Char) : trim (trim cs) = trim cs :=
  trim_eq_self (trimmed_trim cs)

theorem trimText_eq_self_iff {s : String} : trimText s = s ↔ Trimmed s.toList := by
  rw [trimText, ← trim_eq_self_iff, ← String.toList_inj, String.toList_ofList]

end GameHost.Text
