import GameHost.Module.Order
import GameHost.Proofs.Sequencing
import Mathlib.Data.Fintype.Defs
import Mathlib.Data.List.Lex
import Mathlib.Data.Set.Finite.List
import Mathlib.Logic.Relation
import Mathlib.Order.WellFounded

namespace GameHost.Order

variable {α : Type} (name : α → String) (deps : α → List String)

/-- Each module depends only on modules that stand before it, or whose names are in `placed`. -/
def InOrder : List String → List α → Prop
  | _, [] => True
  | placed, m :: ms => (∀ d ∈ deps m, d ∈ placed) ∧ InOrder (name m :: placed) ms

def Needs (ms : List α) (n d : String) : Prop := ∃ m ∈ ms, name m = n ∧ d ∈ deps m

def Cyclic (ms : List α) : Prop := ∃ n, Relation.TransGen (Needs name deps ms) n n

variable {name deps} {placed : List String} {pending out ms : List α} {m : α}

theorem ready_iff : ready deps placed m ↔ ∀ d ∈ deps m, d ∈ placed := by
  simp [ready]

theorem arrange_nil : arrange name deps placed [] = .ok [] := by
  rw [arrange]
  rfl

theorem arrange_of_ready (h : pending.find? (ready deps placed) = some m) :
    arrange name deps placed pending =
      (arrange name deps (name m :: placed) (pending.eraseP (ready deps placed))).map (m :: ·) := by
  rw [arrange]
  split
  · next m' h' =>
    cases h.symm.trans h'
    rfl
  · next h' => cases h.symm.trans h'

theorem arrange_of_waiting (h : (m :: ms).find? (ready deps placed) = none) :
    arrange name deps placed (m :: ms) = .error (name m) := by
  rw [arrange]
  split
  · next m' h' => cases h.symm.trans h'
  · rfl

theorem split_of_ready (h : pending.find? (ready deps placed) = some m) : ready deps placed m ∧
    ∃ before after, pending = before ++ m :: after ∧ (∀ x ∈ before, ¬ ready deps placed x) ∧
      pending.eraseP (ready deps placed) = before ++ after := by
  obtain ⟨hm, before, after, rfl, hbefore⟩ := List.find?_eq_some_iff_append.mp h
  have hnot : ∀ x ∈ before, ¬ ready deps placed x := by
    intro x hx
    simpa using hbefore x hx
  refine ⟨hm, before, after, rfl, hnot, ?_⟩
  rw [List.eraseP_append_right _ hnot, List.eraseP_cons_of_pos hm]

variable (name deps) in
/-- Induction along the modules that `arrange` takes. -/
theorem arrange_induct {motive : List String → List α → Prop} (nil : ∀ placed, motive placed [])
    (waiting : ∀ placed m ms, (m :: ms).find? (ready deps placed) = none → motive placed (m :: ms))
    (step : ∀ placed pending m before after, pending.find? (ready deps placed) = some m →
      pending = before ++ m :: after → ready deps placed m → (∀ x ∈ before, ¬ ready deps placed x) →
      pending.eraseP (ready deps placed) = before ++ after →
      motive (name m :: placed) (before ++ after) → motive placed pending)
    (placed : List String) (pending : List α) : motive placed pending := by
  induction hn : pending.length using Nat.strongRecOn generalizing placed pending with
  | _ n ih =>
    cases hfind : pending.find? (ready deps placed) with
    | none =>
      cases pending with
      | nil => exact nil placed
      | cons m ms => exact waiting placed m ms hfind
    | some m =>
      obtain ⟨hm, before, after, hsplit, hbefore, herase⟩ := split_of_ready hfind
      refine step placed pending m before after hfind hsplit hm hbefore herase ?_
      refine ih (before ++ after).length ?_ _ _ rfl
      rw [← hn, hsplit]
      simp

theorem arrange_eq_ok (h : arrange name deps placed pending = .ok out) :
    out.Perm pending ∧ InOrder name deps placed out := by
  induction placed, pending using arrange_induct name deps generalizing out with
  | nil placed =>
    rw [arrange_nil] at h
    cases h
    exact ⟨.refl [], trivial⟩
  | waiting placed m ms hwait =>
    rw [arrange_of_waiting hwait] at h
    cases h
  | step placed pending m before after hfind hsplit hm _ herase ih =>
    rw [arrange_of_ready hfind, herase] at h
    obtain ⟨rest, hrest, rfl⟩ := Except.map_eq_ok.mp h
    obtain ⟨hperm, horder⟩ := ih hrest
    rw [hsplit]
    exact ⟨(hperm.cons m).trans List.perm_middle.symm, ready_iff.mp hm, horder⟩

theorem arrange_of_inOrder (h : InOrder name deps placed ms) : arrange name deps placed ms = .ok ms := by
  induction ms generalizing placed with
  | nil => exact arrange_nil
  | cons m ms ih =>
    obtain ⟨hm, hms⟩ := h
    have hready : ready deps placed m = true := ready_iff.mpr hm
    rw [arrange_of_ready (List.find?_cons_of_pos hready), List.eraseP_cons_of_pos hready, ih hms]
    rfl

/-- Of all orders of the pending modules the one that is found comes first, where `place` grows along
the pending modules. -/
theorem arrange_least {place : α → Nat} (hplace : pending.Pairwise (place · < place ·))
    (h : arrange name deps placed pending = .ok out) {other : List α} (hperm : other.Perm pending)
    (horder : InOrder name deps placed other) :
    other = out ∨ List.Lex (· < ·) (out.map place) (other.map place) := by
  induction placed, pending using arrange_induct name deps
    generalizing out other with
  | nil placed =>
    rw [arrange_nil] at h
    cases h
    exact .inl hperm.eq_nil
  | waiting placed m ms hwait =>
    rw [arrange_of_waiting hwait] at h
    cases h
  | step placed pending m before after hfind hsplit hm hbefore herase ih =>
    rw [arrange_of_ready hfind, herase] at h
    obtain ⟨rest, hrest, rfl⟩ := Except.map_eq_ok.mp h
    subst hsplit
    obtain ⟨hfirst, hafter, hcross⟩ := List.pairwise_append.mp hplace
    obtain ⟨hlater, hrestplace⟩ := List.pairwise_cons.mp hafter
    cases other with
    | nil => exact absurd hperm.symm.eq_nil (by simp)
    | cons x xs =>
      obtain ⟨hx, hxs⟩ := horder
      -- The head of another order is ready, so it is not one of those before the first that is.
      have hmem : x = m ∨ x ∈ after := by
        rcases List.mem_append.mp (hperm.mem_iff.mp List.mem_cons_self) with hb | hc
        · exact absurd (ready_iff.mpr hx) (hbefore x hb)
        · exact List.mem_cons.mp hc
      rcases hmem with rfl | hx'
      · have hgap : (before ++ after).Pairwise (place · < place ·) :=
          List.pairwise_append.mpr
            ⟨hfirst, hrestplace, fun a ha b hb ↦ hcross a ha b (List.mem_cons_of_mem _ hb)⟩
        have htail : xs.Perm (before ++ after) := (hperm.trans List.perm_middle).cons_inv
        rcases ih hgap hrest htail hxs with rfl | hlex
        · exact .inl rfl
        · exact .inr (.cons hlex)
      · exact .inr (.rel (hlater x hx'))

/-- When no module that is left can be placed, each of them waits for a name that is not placed, and the
names that were to be placed are placed or left. -/
theorem arrange_eq_error {n : String} (h : arrange name deps placed pending = .error n) :
    ∃ (done : List String) (left : List α), (∃ m ms, left = m :: ms ∧ name m = n) ∧ left ⊆ pending ∧
      (∀ d, d ∈ placed ∨ d ∈ pending.map name → d ∈ done ∨ d ∈ left.map name) ∧
      ∀ m ∈ left, ∃ d ∈ deps m, d ∉ done := by
  induction placed, pending using arrange_induct name deps with
  | nil placed =>
    rw [arrange_nil] at h
    cases h
  | waiting placed m ms hwait =>
    rw [arrange_of_waiting hwait] at h
    cases h
    refine ⟨placed, m :: ms, ⟨m, ms, rfl, rfl⟩, List.Subset.refl _, fun _ hd ↦ hd, ?_⟩
    intro x hx
    have hnot := List.find?_eq_none.mp hwait x hx
    rw [ready_iff] at hnot
    push Not at hnot
    exact hnot
  | step placed pending m before after hfind hsplit _ _ herase ih =>
    rw [arrange_of_ready hfind, herase] at h
    obtain ⟨done, left, hhead, hsub, hnames, hleft⟩ := ih (Except.map_eq_error.mp h)
    subst hsplit
    refine ⟨done, left, hhead, ?_, ?_, hleft⟩
    · intro x hx
      rcases List.mem_append.mp (hsub hx) with hb | ha
      · exact List.mem_append_left _ hb
      · exact List.mem_append_right _ (List.mem_cons_of_mem m ha)
    · intro d hd
      apply hnames
      rw [List.map_append, List.map_cons] at hd
      rw [List.map_append]
      simp only [List.mem_append, List.mem_cons] at hd ⊢
      tauto

theorem cyclic_of_waiting {left : List α} (hne : left ≠ []) (hsub : left ⊆ ms)
    (hwait : ∀ m ∈ left, ∃ d ∈ deps m, d ∈ left.map name) : Cyclic name deps ms := by
  by_contra hacyclic
  have hfinite : Finite {d : String // d ∈ left.map name} := (List.finite_toSet (left.map name)).to_subtype
  let follows (b a : {d : String // d ∈ left.map name}) : Prop :=
    Relation.TransGen (Needs name deps ms) a.1 b.1
  have htrans : IsTrans _ follows := ⟨fun a b c hab hbc ↦ hbc.trans hab⟩
  have hirrefl : Std.Irrefl follows := ⟨fun a ha ↦ hacyclic ⟨a.1, ha⟩⟩
  obtain ⟨x, hx⟩ := List.exists_mem_of_ne_nil left hne
  -- In a finite set without a cycle some module would wait for none of the others.
  obtain ⟨⟨n, hn⟩, -, hlast⟩ := (Finite.wellFounded_of_trans_of_irrefl follows).has_min Set.univ
    ⟨⟨name x, List.mem_map_of_mem hx⟩, trivial⟩
  obtain ⟨m, hm, rfl⟩ := List.mem_map.mp hn
  obtain ⟨d, hd, hleft⟩ := hwait m hm
  exact hlast ⟨d, hleft⟩ trivial (.single ⟨m, hsub hm, rfl, hd⟩)

theorem InOrder.idxOf_lt (h : InOrder name deps placed ms) (hnodup : (ms.map name).Nodup) {d : String}
    (hm : m ∈ ms) (hd : d ∈ deps m) :
    d ∈ placed ∨ (ms.map name).idxOf d < (ms.map name).idxOf (name m) := by
  induction ms generalizing placed with
  | nil => cases hm
  | cons x xs ih =>
    obtain ⟨hx, hxs⟩ := h
    rw [List.map_cons] at hnodup ⊢
    obtain ⟨hfresh, hnodup⟩ := List.nodup_cons.mp hnodup
    rcases List.mem_cons.mp hm with rfl | hm
    · exact .inl (hx d hd)
    · have hne : name x ≠ name m := fun he ↦ hfresh (he ▸ List.mem_map_of_mem hm)
      by_cases hfirst : name x = d
      · right
        rw [List.idxOf_cons_eq _ hfirst, List.idxOf_cons_ne _ hne]
        omega
      · rcases ih hxs hnodup hm with hplaced | hlt
        · rcases List.mem_cons.mp hplaced with rfl | hplaced
          · exact absurd rfl hfirst
          · exact .inl hplaced
        · right
          rw [List.idxOf_cons_ne _ hfirst, List.idxOf_cons_ne _ hne]
          omega

theorem InOrder.acyclic (h : InOrder name deps [] ms) (hnodup : (ms.map name).Nodup) :
    ¬ Cyclic name deps ms := by
  rintro ⟨n, hcycle⟩
  have hlt (a b : String) (hab : Relation.TransGen (Needs name deps ms) a b) :
      (ms.map name).idxOf b < (ms.map name).idxOf a := by
    have hone (a b : String) (hab : Needs name deps ms a b) :
        (ms.map name).idxOf b < (ms.map name).idxOf a := by
      obtain ⟨m, hm, rfl, hd⟩ := hab
      exact (h.idxOf_lt hnodup hm hd).resolve_left List.not_mem_nil
    induction hab with
    | single hab => exact hone _ _ hab
    | tail _ hbc ih => exact (hone _ _ hbc).trans ih
  exact Nat.lt_irrefl _ (hlt n n hcycle)

theorem Cyclic.perm {ms' : List α} (hperm : ms.Perm ms') (h : Cyclic name deps ms) :
    Cyclic name deps ms' := by
  obtain ⟨n, hn⟩ := h
  have hle : ∀ a b, Needs name deps ms a b → Needs name deps ms' a b := by
    rintro a b ⟨m, hm, rfl, hd⟩
    exact ⟨m, hperm.mem_iff.mp hm, rfl, hd⟩
  exact ⟨n, Relation.TransGen.mono hle n n hn⟩

end GameHost.Order
