import GameHost.Proofs.Module.Execution
import Mathlib.Data.List.Chain

namespace GameHost

inductive Deed
  | moved (source target : ModuleState)
  | started (hook : HookKind)
  deriving DecidableEq, Repr

def Note.deed? (id : Nat) : Note → Option Deed
  | moved i source target => if i = id then some (.moved source target) else none
  | started hook i _ => if i = id then some (.started hook) else none
  | _ => none

def deeds (id : Nat) (notes : List Note) : List Deed := notes.filterMap (Note.deed? id)

def Deed.target? : Deed → Option ModuleState
  | moved _ target => some target
  | started _ => none

def HookKind.state : HookKind → ModuleState
  | onRegister => .registered
  | onInit => .initialized
  | onClose => .closed
  | onShutdown => .shutdown

theorem ModuleState.hook?_eq_some {s : ModuleState} {hook : HookKind} :
    s.hook? = some hook ↔ hook.state = s := by
  cases s <;> cases hook <;> simp [hook?, HookKind.state]

theorem ModuleState.rank_eq_succ {s t : ModuleState} (hmove : s.canMove t) (ht : t ≠ .destroyed) :
    t.rank = s.rank + 1 := by
  cases s <;> cases t <;> simp [canMove, next?] at hmove ht <;> rfl

theorem ModuleState.rank_inj {s t : ModuleState} (h : s.rank = t.rank) : s = t := by
  cases s <;> cases t <;> first | rfl | cases h

theorem ModuleState.source_unique {s s' t : ModuleState} (hmove : s.canMove t) (hmove' : s'.canMove t)
    (ht : t ≠ .destroyed) : s = s' := by
  have hrank := rank_eq_succ hmove ht
  have hrank' := rank_eq_succ hmove' ht
  exact rank_inj (by omega)

theorem ModuleState.ne_destroyed_of_canMove {s t : ModuleState} (hmove : s.canMove t) : s ≠ .destroyed := by
  rintro rfl
  cases t <;> cases hmove

/-- The order of what happens to a module that has some hooks and comes to a state in the end. -/
structure Course (has : HookKind → Bool) (deeds : List Deed) (state : ModuleState) : Prop where
  once (hook : HookKind) : deeds.count (.started hook) ≤ 1
  inTurn : ∀ front hook rest, deeds = front ++ .started hook :: rest →
    ∀ earlier : HookKind, earlier.state.rank < hook.state.rank → has earlier → .started earlier ∈ front
  closes : ∀ front rest, deeds = front ++ .started .onClose :: rest → .moved .initialized .running ∈ front
  shutsDown : ∀ front rest, deeds = front ++ .started .onShutdown :: rest → .moved .running .closed ∈ front
  forward : List.IsChain (fun s t ↦ s.canMove t) (.created :: deeds.filterMap Deed.target?)
  arrives : (.created :: deeds.filterMap Deed.target?).getLast? = some state
  ends : ∀ front source rest, deeds = front ++ .moved source .destroyed :: rest → rest = []

/-- What happens on the way from one state to another. -/
inductive Life (has : HookKind → Bool) : ModuleState → List Deed → ModuleState → Prop
  | still (s : ModuleState) : Life has s [] s
  | moved {s t u : ModuleState} {deeds : List Deed} (hmove : s.canMove t) (hnone : t.hook?.filter has = none)
      (rest : Life has t deeds u) : Life has s (.moved s t :: deeds) u
  | started {s u : ModuleState} {hook : HookKind} {deeds : List Deed} (hmove : s.canMove hook.state)
      (hhas : has hook) (rest : Life has hook.state deeds u) :
      Life has s (.moved s hook.state :: .started hook :: deeds) u

namespace Life

variable {has : HookKind → Bool} {s t u : ModuleState} {front rest deeds : List Deed} {hook : HookKind}

theorem trans (h : Life has s front t) (h' : Life has t rest u) : Life has s (front ++ rest) u := by
  induction h with
  | still s => exact h'
  | moved hmove hnone _ ih => exact .moved hmove hnone (ih h')
  | started hmove hhas _ ih => exact .started hmove hhas (ih h')

theorem rank_le (h : Life has s deeds u) : s.rank ≤ u.rank := by
  induction h with
  | still s => exact Nat.le_refl _
  | moved hmove _ _ ih | started hmove _ _ ih =>
    have hlt := ModuleState.rank_lt_of_canMove hmove
    omega

theorem rank_of_started (h : Life has s deeds u) (hmem : .started hook ∈ deeds) :
    s.rank < hook.state.rank ∧ hook.state.rank ≤ u.rank := by
  induction h with
  | still s => cases hmem
  | @moved s t u deeds hmove hnone rest ih =>
    have hlt := ModuleState.rank_lt_of_canMove hmove
    have hlater : .started hook ∈ deeds := by simpa using hmem
    have hrank := ih hlater
    omega
  | @started s u first deeds hmove hhas rest ih =>
    have hlt := ModuleState.rank_lt_of_canMove hmove
    have hle := rest.rank_le
    simp only [List.mem_cons, reduceCtorEq, false_or, Deed.started.injEq] at hmem
    rcases hmem with rfl | hlater
    · exact ⟨hlt, hle⟩
    · have hrank := ih hlater
      omega

theorem of_started (h : Life has s (front ++ .started hook :: rest) u) :
    ∃ before p, front = before ++ [.moved p hook.state] ∧ p.canMove hook.state ∧
      Life has s before p ∧ Life has hook.state rest u := by
  generalize hdeeds : front ++ .started hook :: rest = deeds at h
  induction h generalizing front with
  | still s => simp at hdeeds
  | moved hmove hnone later ih =>
    cases front with
    | nil => cases hdeeds
    | cons deed front =>
      obtain ⟨rfl, htail⟩ := List.cons.inj hdeeds
      obtain ⟨before, p, rfl, hp, hbefore, hafter⟩ := ih htail
      exact ⟨_ :: before, p, rfl, hp, .moved hmove hnone hbefore, hafter⟩
  | started hmove hhas later ih =>
    match front with
    | [] => cases hdeeds
    | [deed] =>
      cases hdeeds
      exact ⟨[], _, rfl, hmove, .still _, later⟩
    | deed :: deed' :: front =>
      obtain ⟨rfl, htail⟩ := List.cons.inj hdeeds
      obtain ⟨rfl, htail'⟩ := List.cons.inj htail
      obtain ⟨before, p, rfl, hp, hbefore, hafter⟩ := ih htail'
      exact ⟨_ :: _ :: before, p, rfl, hp, .started hmove hhas hbefore, hafter⟩

theorem ne_destroyed (h : Life has s deeds u) (hu : u ≠ .destroyed) : s ≠ .destroyed := by
  cases h with
  | still => exact hu
  | moved hmove | started hmove => exact ModuleState.ne_destroyed_of_canMove hmove

theorem started_mem (h : Life has s deeds u) (hu : u ≠ .destroyed) (hhas : has hook)
    (hs : s.rank < hook.state.rank) (hle : hook.state.rank ≤ u.rank) : .started hook ∈ deeds := by
  induction h with
  | still s => omega
  | @moved s t u deeds hmove hnone rest ih =>
    have hrank := ModuleState.rank_eq_succ hmove (rest.ne_destroyed hu)
    have hne : hook.state ≠ t := by
      intro heq
      rw [ModuleState.hook?_eq_some.2 heq, Option.filter_some, hhas] at hnone
      cases hnone
    have hlt : t.rank ≠ hook.state.rank := fun heq ↦ hne (ModuleState.rank_inj heq).symm
    exact List.mem_cons_of_mem _ (ih hu (by omega) hle)
  | @started s u first deeds hmove hfirst rest ih =>
    have hrank := ModuleState.rank_eq_succ hmove (rest.ne_destroyed hu)
    by_cases heq : first.state.rank = hook.state.rank
    · have hsame : first = hook := by
        have hstate := ModuleState.rank_inj heq
        cases first <;> cases hook <;> first | rfl | cases hstate
      rw [hsame]
      exact List.mem_cons_of_mem _ List.mem_cons_self
    · exact List.mem_cons_of_mem _ (List.mem_cons_of_mem _ (ih hu (by omega) hle))

theorem moved_mem (h : Life has s deeds u) (hne : s ≠ u) : ∃ p, p.canMove u ∧ .moved p u ∈ deeds := by
  induction h with
  | still s => exact absurd rfl hne
  | @moved s t u deeds hmove hnone rest ih =>
    by_cases htu : t = u
    · subst htu
      exact ⟨s, hmove, List.mem_cons_self⟩
    · obtain ⟨p, hp, hmem⟩ := ih htu
      exact ⟨p, hp, List.mem_cons_of_mem _ hmem⟩
  | @started s u hook deeds hmove hhas rest ih =>
    by_cases htu : hook.state = u
    · subst htu
      exact ⟨s, hmove, List.mem_cons_self⟩
    · obtain ⟨p, hp, hmem⟩ := ih htu
      exact ⟨p, hp, List.mem_cons_of_mem _ (List.mem_cons_of_mem _ hmem)⟩

theorem isChain (h : Life has s deeds u) :
    List.IsChain (fun s t : ModuleState ↦ s.canMove t) (s :: deeds.filterMap Deed.target?) := by
  induction h with
  | still s => exact .singleton s
  | moved hmove _ _ ih | started hmove _ _ ih => exact .cons_cons hmove ih

theorem getLast?_targets (h : Life has s deeds u) : (s :: deeds.filterMap Deed.target?).getLast? = some u := by
  induction h with
  | still s => rfl
  | moved _ _ _ ih | started _ _ _ ih =>
    simp only [List.filterMap_cons, Deed.target?]
    rw [List.getLast?_cons_cons]
    exact ih

theorem eq_nil_of_destroyed (h : Life has .destroyed deeds u) : deeds = [] := by
  cases h with
  | still => rfl
  | moved hmove | started hmove => exact absurd rfl (ModuleState.ne_destroyed_of_canMove hmove)

theorem of_moved_destroyed {p : ModuleState} (h : Life has s (front ++ .moved p .destroyed :: rest) u) :
    rest = [] := by
  generalize hdeeds : front ++ .moved p .destroyed :: rest = deeds at h
  induction h generalizing front with
  | still s => simp at hdeeds
  | moved hmove hnone later ih =>
    cases front with
    | nil =>
      cases hdeeds
      exact later.eq_nil_of_destroyed
    | cons deed front => exact ih (List.cons.inj hdeeds).2
  | @started _ _ hook _ hmove hhas later ih =>
    match front with
    | [] => cases hook <;> cases hdeeds
    | [deed] => cases hdeeds
    | deed :: deed' :: front => exact ih (List.cons.inj (List.cons.inj hdeeds).2).2

theorem count_started_le (h : Life has s deeds u) (hook : HookKind) : deeds.count (.started hook) ≤ 1 := by
  by_cases hmem : .started hook ∈ deeds
  · obtain ⟨front, rest, rfl⟩ := List.append_of_mem hmem
    obtain ⟨before, p, rfl, hp, hbefore, hafter⟩ := h.of_started
    have hlt := ModuleState.rank_lt_of_canMove hp
    have hearlier : .started hook ∉ before := by
      intro hmem
      have hrank := hbefore.rank_of_started hmem
      omega
    have hlater : .started hook ∉ rest := by
      intro hmem
      have hrank := hafter.rank_of_started hmem
      omega
    simp [List.count_append, List.count_eq_zero_of_not_mem hearlier, List.count_eq_zero_of_not_mem hlater]
  · rw [List.count_eq_zero_of_not_mem hmem]
    exact Nat.zero_le 1

theorem moved_before_started (source : ModuleState) (h : Life has .created (front ++ .started hook :: rest) u)
    (hcreated : .created ≠ source) (hnext : source.canMove hook.state) :
    ∃ p, p.canMove source ∧ .moved p source ∈ front := by
  obtain ⟨before, q, rfl, hq, hbefore, -⟩ := h.of_started
  have hsame : q = source := ModuleState.source_unique hq hnext (by cases hook <;> decide)
  subst hsame
  obtain ⟨p, hp, hmem⟩ := hbefore.moved_mem hcreated
  exact ⟨p, hp, List.mem_append_left _ hmem⟩

theorem course (h : Life has .created deeds u) : Course has deeds u where
  once := h.count_started_le
  inTurn := by
    rintro front hook rest rfl earlier hlt hhas
    obtain ⟨before, p, rfl, hp, hbefore, -⟩ := h.of_started
    have hrank := ModuleState.rank_eq_succ hp (by cases hook <;> decide)
    have hfirst : ModuleState.created.rank < earlier.state.rank := by cases earlier <;> decide
    have hmem := hbefore.started_mem (ModuleState.ne_destroyed_of_canMove hp) hhas hfirst (by omega)
    exact List.mem_append_left _ hmem
  closes := by
    rintro front rest rfl
    obtain ⟨p, hp, hmem⟩ := h.moved_before_started .running (by decide) rfl
    have hsource : p = .initialized := ModuleState.source_unique hp rfl (by decide)
    exact hsource ▸ hmem
  shutsDown := by
    rintro front rest rfl
    obtain ⟨p, hp, hmem⟩ := h.moved_before_started .closed (by decide) rfl
    have hsource : p = .running := ModuleState.source_unique hp rfl (by decide)
    exact hsource ▸ hmem
  forward := h.isChain
  arrives := h.getLast?_targets
  ends := by
    rintro front source rest rfl
    exact h.of_moved_destroyed

end Life

/-- What becomes of a module, if there is one: nothing happens to it before it is made. -/
inductive Grown : Option Module → List Deed → Option Module → Prop
  | absent : Grown none [] none
  | made {m : Module} {deeds : List Deed} (h : Life m.has .created deeds m.state) : Grown none deeds (some m)
  | kept {m after : Module} {deeds : List Deed} (hname : after.name = m.name) (hhooks : after.hooks = m.hooks)
      (h : Life m.has m.state deeds after.state) : Grown (some m) deeds (some after)

theorem Module.has_congr {m m' : Module} (h : m'.hooks = m.hooks) : m'.has = m.has := by
  funext hook
  rw [has, has, h]

namespace Grown

theorem refl (m : Option Module) : Grown m [] m := by
  cases m with
  | none => exact .absent
  | some m => exact .kept rfl rfl (.still _)

theorem trans {m m' m'' : Option Module} {front rest : List Deed} (h : Grown m front m') (h' : Grown m' rest m'') :
    Grown m (front ++ rest) m'' := by
  cases h with
  | absent => exact h'
  | made hlife =>
    cases h' with
    | kept hname hhooks hlater =>
      rw [← Module.has_congr hhooks] at hlife hlater
      exact .made (hlife.trans hlater)
  | kept hname hhooks hlife =>
    cases h' with
    | kept hname' hhooks' hlater =>
      rw [Module.has_congr hhooks] at hlater
      exact .kept (hname'.trans hname) (hhooks'.trans hhooks) (hlife.trans hlater)

theorem life {m : Module} {deeds : List Deed} (h : Grown none deeds (some m)) :
    Life m.has .created deeds m.state := by
  cases h with
  | made h => exact h

end Grown

theorem Note.deed?_of_isLife {n : Note} (h : n.isLife = false) (id : Nat) : n.deed? id = none := by
  cases n <;> first | rfl | cases h

theorem Module.Tended.kept {m after : Module} (h : m.Tended after) : Grown (some m) [] (some after) := by
  cases h <;> exact .kept rfl rfl (.still _)

namespace World

variable {w v : World}

/-- What was noted on the way from one world to the next, the oldest first. -/
def Grows (w v : World) : Prop :=
  ∃ notes, v.notes = notes ++ w.notes ∧ ∀ id, Grown w.modules[id]? (deeds id notes.reverse) v.modules[id]?

theorem Grows.of_set (notes : List Note) {id : Nat} {m after : Module} (hat : w.modules[id]? = some m)
    (hmodules : v.modules = w.modules.set id after) (hnotes : v.notes = notes ++ w.notes)
    (hother : ∀ j, j ≠ id → deeds j notes.reverse = [])
    (h : Grown (some m) (deeds id notes.reverse) (some after)) : w.Grows v := by
  refine ⟨notes, hnotes, fun j ↦ ?_⟩
  have hlt := (List.getElem?_eq_some_iff.1 hat).1
  rw [hmodules]
  by_cases hj : j = id
  · subst hj
    rw [List.getElem?_set_self hlt, hat]
    exact h
  · rw [List.getElem?_set_ne (Ne.symm hj), hother j hj]
    exact .refl _

theorem grows_enter {id : Nat} {m : Module} {target : ModuleState} (hat : w.modules[id]? = some m)
    (hmove : m.state.canMove target) : w.Grows (w.enter id m target) := by
  cases hhook : target.hook?.filter m.has with
  | none =>
    refine .of_set [.moved id m.state target] hat rfl ?_ ?_ ?_
    · simp only [enter, hhook]
      rfl
    · intro j hj
      simp [deeds, Note.deed?, Ne.symm hj]
    · simp only [deeds, Note.deed?, List.reverse_singleton, List.filterMap_cons, if_true]
      exact .kept rfl rfl (.moved hmove hhook (.still _))
  | some hook =>
    obtain ⟨hstate, hhas⟩ := Option.filter_eq_some_iff.1 hhook
    rw [ModuleState.hook?_eq_some] at hstate
    subst hstate
    refine .of_set [.started hook id m.name, .moved id m.state hook.state] hat rfl ?_ ?_ ?_
    · simp only [enter, hhook]
      rfl
    · intro j hj
      simp [deeds, Note.deed?, Ne.symm hj]
    · have hdeeds : deeds id [.moved id m.state hook.state, .started hook id m.name] =
          [.moved m.state hook.state, .started hook] := by
        simp [deeds, Note.deed?]
      simp only [List.reverse_cons, List.reverse_nil, List.nil_append, List.singleton_append, hdeeds]
      exact .kept rfl rfl (.started hmove hhas (.still _))

theorem grows_change (h : Change w v) : w.Grows v := by
  cases h with
  | aside hmodules hregistries hnotes =>
    obtain ⟨notes, hnotes, hquiet⟩ := hnotes
    refine ⟨notes, hnotes, fun id ↦ ?_⟩
    have hnone : deeds id notes.reverse = [] := by
      rw [deeds, List.filterMap_eq_nil_iff]
      intro n hn
      exact Note.deed?_of_isLife (hquiet n (List.mem_reverse.1 hn)) id
    rw [hnone, hmodules]
    exact .refl _
  | @made name state deps hooks m hmade =>
    refine ⟨[], rfl, fun id ↦ ?_⟩
    have hcreated : m.state = .created := by
      simp only [Module.create] at hmade
      split at hmade
      · cases hmade
      · cases hmade
        rfl
    rcases Nat.lt_trichotomy id w.modules.length with hlt | rfl | hgt
    · rw [List.getElem?_append_left hlt]
      exact .refl _
    · rw [List.getElem?_concat_length, List.getElem?_eq_none (Nat.le_refl _)]
      refine .made ?_
      rw [hcreated]
      exact .still _
    · rw [List.getElem?_eq_none (Nat.le_of_lt hgt), List.getElem?_eq_none (by rw [List.length_append]; exact hgt)]
      exact .absent
  | tended hat htended => exact .of_set [] hat rfl rfl (fun _ _ ↦ rfl) htended.kept
  | opened => exact ⟨[], rfl, fun id ↦ .refl _⟩
  | @enlisted r id => exact ⟨[.enlisted r id], rfl, fun _ ↦ .refl _⟩
  | entered hat hmove => exact grows_enter hat hmove
  | emptied r => exact ⟨[.emptied r], rfl, fun _ ↦ .refl _⟩

theorem Grows.trans {u : World} (h : w.Grows v) (h' : v.Grows u) : w.Grows u := by
  obtain ⟨notes, hnotes, hgrown⟩ := h
  obtain ⟨notes', hnotes', hgrown'⟩ := h'
  refine ⟨notes' ++ notes, by rw [hnotes', hnotes, List.append_assoc], fun id ↦ ?_⟩
  rw [deeds, List.reverse_append, List.filterMap_append]
  exact (hgrown id).trans (hgrown' id)

theorem Changes.grows (h : Changes w v) : w.Grows v := by
  induction h with
  | refl => exact ⟨[], rfl, fun id ↦ .refl _⟩
  | tail _ hlast ih => exact ih.trans (grows_change hlast)

/-- All that is noted while operations run one after another, the oldest first, and the world after. -/
def story : List Operation → World → List Note × World
  | [], w => ([], w)
  | op :: ops, w =>
    let after := (w.step op).2.2
    let (notes, last) := story ops after
    (after.notes.reverse ++ notes, last)

theorem changes_step (op : Operation) (w : World) : Changes { w with notes := [] } (w.step op).2.2 :=
  changes_execute maxDepth .outside op _

theorem grown_story (ops : List Operation) (w : World) (id : Nat) :
    Grown w.modules[id]? (deeds id (story ops w).1) (story ops w).2.modules[id]? := by
  induction ops generalizing w with
  | nil => exact .refl _
  | cons op ops ih =>
    obtain ⟨notes, hnotes, hgrown⟩ := (changes_step op w).grows
    rw [List.append_nil] at hnotes
    simp only [story, hnotes, deeds, List.filterMap_append]
    exact (hgrown id).trans (ih _)

end World
end GameHost
