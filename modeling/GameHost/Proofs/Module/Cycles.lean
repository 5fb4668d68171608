import GameHost.Proofs.Module.Changes
import GameHost.Proofs.Module.DependencyOrder

namespace GameHost

namespace Order

variable {α : Type} (name : α → String) (deps : α → List String) (ms : List α)

def OnCycle (n : String) : Prop := Relation.TransGen (Needs name deps ms) n n

/-- The module, or one that it depends on directly or through others, is on a cycle. -/
def LeadsToCycle (n : String) : Prop :=
  ∃ c, Relation.ReflTransGen (Needs name deps ms) n c ∧ OnCycle name deps ms c

/-- All chains of dependencies from the module come to an end. -/
def Grounded (n : String) : Prop := Acc (fun d n ↦ Needs name deps ms n d) n

open Classical in
def IsFirst (P : α → Prop) (xs : List α) (x : α) : Prop := xs.find? (fun x ↦ decide (P x)) = some x

/-- The module that a cycle is put down to. -/
structure Blamed (n : String) : Prop where
  distinct : (ms.map name).Nodup
  closed : Closed name deps ms
  first : ∃ m, IsFirst (fun m ↦ LeadsToCycle name deps ms (name m)) ms m ∧ name m = n

/-- Whatever merely leads to a cycle is listed behind something that is on one. -/
def BystandersLater : Prop :=
  ∀ before m after, ms = before ++ m :: after → LeadsToCycle name deps ms (name m) → ¬ OnCycle name deps ms (name m) →
    ∃ x ∈ before, OnCycle name deps ms (name x)

variable {name deps ms} {n : String}

section

variable {P : α → Prop} {x y : α} {xs before after : List α}

theorem isFirst_iff : IsFirst P xs x ↔ P x ∧ ∃ before after, xs = before ++ x :: after ∧ ∀ y ∈ before, ¬ P y := by
  rw [IsFirst, List.find?_eq_some_iff_append]
  simp

theorem IsFirst.insert (h : IsFirst P (before ++ after) x) (hy : ¬ P y) : IsFirst P (before ++ y :: after) x := by
  rw [IsFirst, List.find?_append] at h ⊢
  rw [List.find?_cons_of_neg (by simpa using hy), h]

theorem IsFirst.unique (h : IsFirst P xs x) (h' : IsFirst P xs y) : x = y := Option.some.inj (h.symm.trans h')

end

theorem OnCycle.leads (h : OnCycle name deps ms n) : LeadsToCycle name deps ms n := ⟨n, .refl, h⟩

theorem LeadsToCycle.needs (h : LeadsToCycle name deps ms n) :
    ∃ d, Needs name deps ms n d ∧ LeadsToCycle name deps ms d := by
  obtain ⟨c, hreach, hcycle⟩ := h
  rcases Relation.ReflTransGen.cases_head hreach with rfl | ⟨d, hneeds, hrest⟩
  · obtain ⟨d, hneeds, hrest⟩ := Relation.TransGen.head'_iff.mp hcycle
    exact ⟨d, hneeds, n, hrest, hcycle⟩
  · exact ⟨d, hneeds, c, hrest, hcycle⟩

theorem Grounded.not_leads (h : Grounded name deps ms n) : ¬ LeadsToCycle name deps ms n := by
  induction h with
  | intro n _ ih =>
    intro hleads
    obtain ⟨d, hneeds, hd⟩ := hleads.needs
    exact ih d hneeds hd

theorem exists_needs_of_not_grounded (h : ¬ Grounded name deps ms n) :
    ∃ d, Needs name deps ms n d ∧ ¬ Grounded name deps ms d := by
  by_contra hnone
  push Not at hnone
  exact h (Acc.intro n hnone)

open Classical in
/-- Chains that do not end run into a cycle, as there are only finitely many modules. -/
theorem leads_of_not_grounded (h : ¬ Grounded name deps ms n) : LeadsToCycle name deps ms n := by
  let reached (x : String) : Prop := Relation.ReflTransGen (Needs name deps ms) n x
  let left := ms.filter fun m ↦ reached (name m) ∧ ∃ d ∈ deps m, ¬ Grounded name deps ms d
  have hleft : ∀ m, m ∈ left ↔ m ∈ ms ∧ reached (name m) ∧ ∃ d ∈ deps m, ¬ Grounded name deps ms d := by
    intro m
    simp only [left, List.mem_filter, decide_eq_true_eq]
  have hmem : ∀ x, reached x → ¬ Grounded name deps ms x → ∃ m ∈ left, name m = x := by
    intro x hx hgrounded
    obtain ⟨d, ⟨m, hm, rfl, hd⟩, hnot⟩ := exists_needs_of_not_grounded hgrounded
    exact ⟨m, (hleft m).mpr ⟨hm, hx, d, hd, hnot⟩, rfl⟩
  obtain ⟨m₀, hm₀, -⟩ := hmem n .refl h
  have hcyclic : Cyclic name deps left := by
    refine cyclic_of_waiting (List.ne_nil_of_mem hm₀) (List.Subset.refl left) ?_
    intro m hm
    obtain ⟨hms, hreached, d, hd, hnot⟩ := (hleft m).mp hm
    obtain ⟨m', hm', hname⟩ := hmem d (hreached.tail ⟨m, hms, rfl, hd⟩) hnot
    exact ⟨d, hd, hname ▸ List.mem_map_of_mem hm'⟩
  obtain ⟨c, hcycle⟩ := hcyclic
  obtain ⟨_, ⟨m, hm, rfl, -⟩, -⟩ := Relation.TransGen.head'_iff.mp hcycle
  refine ⟨name m, ((hleft m).mp hm).2.1, Relation.TransGen.mono ?_ _ _ hcycle⟩
  rintro a b ⟨x, hx, hab⟩
  exact ⟨x, ((hleft x).mp hx).1, hab⟩

theorem leads_iff : LeadsToCycle name deps ms n ↔ ¬ Grounded name deps ms n :=
  ⟨fun hleads hgrounded ↦ hgrounded.not_leads hleads, leads_of_not_grounded⟩

theorem not_grounded_of_waiting {left : List α} (hsub : left ⊆ ms)
    (hwait : ∀ m ∈ left, ∃ d ∈ deps m, d ∈ left.map name) {m : α} (hm : m ∈ left) :
    ¬ Grounded name deps ms (name m) := by
  intro hgrounded
  generalize hn : name m = n at hgrounded
  induction hgrounded generalizing m with
  | intro n _ ih =>
    obtain ⟨d, hd, hleft⟩ := hwait m hm
    obtain ⟨m', hm', hname⟩ := List.mem_map.mp hleft
    exact ih d ⟨m, hsub hm, hn, hd⟩ hm' hname

theorem grounded_of_ready {placed : List String} {m : α} (hnodup : (ms.map name).Nodup) (hm : m ∈ ms)
    (hplaced : ∀ d ∈ placed, Grounded name deps ms d) (hready : ready deps placed m) :
    Grounded name deps ms (name m) := by
  refine Acc.intro _ ?_
  rintro d ⟨m', hm', hname, hd⟩
  obtain rfl := List.inj_on_of_nodup_map hnodup hm' hm hname
  exact hplaced d (ready_iff.mp hready d hd)

theorem first_of_arrange (hnodup : (ms.map name).Nodup) (hclosed : Closed name deps ms) {placed : List String}
    {pending : List α} (hsub : pending ⊆ ms) (hplaced : ∀ d ∈ placed, Grounded name deps ms d)
    (hnames : ∀ d ∈ ms.map name, d ∈ placed ∨ d ∈ pending.map name)
    (h : arrange name deps placed pending = .error n) :
    ∃ m, IsFirst (fun m ↦ LeadsToCycle name deps ms (name m)) pending m ∧ name m = n := by
  induction placed, pending using arrange_induct name deps with
  | nil placed =>
    rw [arrange_nil] at h
    cases h
  | waiting placed m rest hwait =>
    rw [arrange_of_waiting hwait] at h
    cases h
    refine ⟨m, isFirst_iff.mpr ⟨leads_iff.mpr ?_, [], rest, rfl, by simp⟩, rfl⟩
    refine not_grounded_of_waiting hsub ?_ List.mem_cons_self
    intro x hx
    have hnot := List.find?_eq_none.mp hwait x hx
    rw [ready_iff] at hnot
    push Not at hnot
    obtain ⟨d, hd, hmissing⟩ := hnot
    exact ⟨d, hd, (hnames d (hclosed x (hsub hx) d hd)).resolve_left hmissing⟩
  | step placed pending m before after hfind hsplit hready _ herase ih =>
    rw [arrange_of_ready hfind, herase] at h
    subst hsplit
    have hm : m ∈ ms := hsub (List.mem_append_right before List.mem_cons_self)
    have hgrounded := grounded_of_ready hnodup hm hplaced hready
    have hsub' : before ++ after ⊆ ms := by
      intro x hx
      refine hsub ?_
      rcases List.mem_append.mp hx with hx | hx
      · exact List.mem_append_left _ hx
      · exact List.mem_append_right _ (List.mem_cons_of_mem m hx)
    have hplaced' : ∀ d ∈ name m :: placed, Grounded name deps ms d := by
      intro d hd
      rcases List.mem_cons.mp hd with rfl | hd
      · exact hgrounded
      · exact hplaced d hd
    have hnames' : ∀ d ∈ ms.map name, d ∈ name m :: placed ∨ d ∈ (before ++ after).map name := by
      intro d hd
      have hold := hnames d hd
      rw [List.map_append, List.map_cons] at hold
      rw [List.map_append]
      simp only [List.mem_append, List.mem_cons] at hold ⊢
      tauto
    obtain ⟨x, hfirst, hname⟩ := ih hsub' hplaced' hnames' (Except.map_eq_error.mp h)
    exact ⟨x, hfirst.insert hgrounded.not_leads, hname⟩

theorem cyclic_of_leads (h : LeadsToCycle name deps ms n) : Cyclic name deps ms := by
  obtain ⟨c, -, hcycle⟩ := h
  exact ⟨c, hcycle⟩

/-- A cycle is put down to the first module that leads to one. -/
theorem dependencyOrder_eq_cycle :
    dependencyOrder name deps ms = .error (.dependencyCycle n) ↔ Blamed name deps ms n := by
  constructor
  · intro h
    rw [dependencyOrder] at h
    split at h
    · cases h
    · cases h
    · next hrepeated hmissing =>
      have hnodup := (repeated?_eq_none.mp hrepeated).1
      have hclosed := missing?_eq_none.mp hmissing
      obtain ⟨_, herror, hn⟩ := Except.mapError_eq_error.mp h
      cases hn
      exact ⟨hnodup, hclosed, first_of_arrange hnodup hclosed (List.Subset.refl ms) (by simp) (fun _ ↦ .inr) herror⟩
  · rintro ⟨hnodup, hclosed, m, hfirst, rfl⟩
    have hrepeated : repeated? [] (ms.map name) = none :=
      repeated?_eq_none.mpr ⟨hnodup, fun _ _ ↦ List.not_mem_nil⟩
    rw [dependencyOrder, hrepeated, missing?_eq_none.mpr hclosed]
    cases harrange : arrange name deps [] ms with
    | ok out =>
      obtain ⟨hperm, horder⟩ := arrange_eq_ok harrange
      have hcyclic := cyclic_of_leads (isFirst_iff.mp hfirst).1
      exact absurd (hcyclic.perm hperm.symm) (horder.acyclic ((hperm.map name).nodup_iff.mpr hnodup))
    | error n =>
      obtain ⟨m', hfirst', rfl⟩ :=
        first_of_arrange hnodup hclosed (List.Subset.refl ms) (by simp) (fun _ ↦ .inr) harrange
      rw [hfirst.unique hfirst']
      rfl

theorem Blamed.onCycle_iff (h : Blamed name deps ms n) : OnCycle name deps ms n ↔ BystandersLater name deps ms := by
  obtain ⟨first, hfirst, rfl⟩ := h.first
  obtain ⟨hleads, front, rest, hsplit, hfront⟩ := isFirst_iff.mp hfirst
  constructor
  · intro hcycle before m after hms hm hnot
    -- The one that is blamed comes before all others that lead to a cycle.
    rw [hsplit, List.append_eq_append_iff] at hms
    rcases hms with ⟨more, rfl, hmore⟩ | ⟨more, rfl, hmore⟩
    · cases more with
      | nil =>
        obtain ⟨rfl, -⟩ := List.cons.inj hmore
        exact absurd hcycle hnot
      | cons x more =>
        obtain ⟨rfl, -⟩ := List.cons.inj hmore
        exact ⟨first, List.mem_append_right _ List.mem_cons_self, hcycle⟩
    · cases more with
      | nil =>
        obtain ⟨rfl, -⟩ := List.cons.inj hmore
        exact absurd hcycle hnot
      | cons x more =>
        obtain ⟨rfl, -⟩ := List.cons.inj hmore
        exact absurd hm (hfront m (List.mem_append_right _ List.mem_cons_self))
  · intro hbefore
    by_contra hnot
    obtain ⟨x, hx, hcycle⟩ := hbefore front first rest hsplit hleads hnot
    exact hfront x hx hcycle.leads

end Order

inductive Error.StopsPass : Error → Prop
  | duplicate (n : String) : StopsPass (.duplicateModule n)
  | move (n : String) (source target : ModuleState) : StopsPass (.badMove n source target)
  | hook (n : String) (hook : HookKind) (cause : Error) : StopsPass (.hookFailed n hook cause)

namespace World

variable {run : ScriptRunner} {w : World} {e : Error} {id r : ℕ}

theorem stopsPass_blame (m : Module) (hook : HookKind) (e : Error) : (m.blame hook e).StopsPass := by
  cases e <;> exact .hook _ _ _

theorem stopsPass_moveModule {target : ModuleState} (h : (moveModule id target w).1 = .error e) : e.StopsPass := by
  cases hat : w.modules[id]? with
  | none =>
    rw [moveModule_of_none hat] at h
    cases h
  | some m =>
    by_cases hmove : m.state.canMove target
    · rw [moveModule_of_canMove hat hmove] at h
      cases h
    · rw [moveModule_of_not_canMove hat hmove] at h
      cases h
      exact .move _ _ _

theorem stopsPass_runEntry {hook : HookKind} {registry : Option ℕ}
    (h : (runEntry run hook id registry w).1 = .error e) : e.StopsPass := by
  cases hat : w.modules[id]? with
  | none =>
    simp only [runEntry, runHook, hat] at h
    cases h
  | some m =>
    rcases hran : runHook run hook id registry w with ⟨cause | done, v⟩
    · simp only [runEntry, hat, hran] at h
      cases h
      exact stopsPass_blame m hook cause
    · simp only [runEntry, hat, hran] at h
      cases h

theorem stopsPass_register (h : (register run r id w).1 = .error e) : e.StopsPass := by
  cases hat : w.modules[id]? with
  | none =>
    simp only [register, hat] at h
    cases h
  | some m =>
    simp only [register, hat] at h
    split at h
    · cases h
      exact .duplicate _
    · split at h
      · exact stopsPass_runEntry h
      · exact stopsPass_moveModule h

theorem stopsPass_initializeOne (h : (initializeOne run id w).1 = .error e) : e.StopsPass := by
  simp only [initializeOne] at h
  split at h
  · exact stopsPass_runEntry h
  · exact stopsPass_moveModule h

theorem stopsPass_startOne (h : (startOne id w).1 = .error e) : e.StopsPass := by
  simp only [startOne] at h
  split at h
  · cases h
  · exact stopsPass_moveModule h

theorem stopsPass_each {step : ℕ → World → Except Error Unit × World}
    (hstep : ∀ {id w}, (step id w).1 = .error e → e.StopsPass) {ids : List ℕ}
    (h : (each step ids w).1 = .error e) : e.StopsPass := by
  induction ids generalizing w with
  | nil => cases h
  | cons id ids ih =>
    rw [each] at h
    split at h
    · exact ih h
    · exact hstep h

theorem stopsPass_initializeAll (h : (initializeAll run r w).1 = .error e) : e.StopsPass := by
  simp only [initializeAll] at h
  split at h
  · exact stopsPass_each stopsPass_startOne h
  · exact stopsPass_each stopsPass_initializeOne h

def listed (ids : List ℕ) (w : World) : List (ℕ × Module) := ids.filterMap fun id ↦ w.modules[id]?.map (id, ·)

theorem boot_eq_cycle {ids : List ℕ} {v : World} {n : String} :
    boot run ids w = (.error (.dependencyCycle n), v) ↔
      Order.dependencyOrder (fun m : ℕ × Module ↦ m.2.name) (·.2.dependsOn) (listed ids w) =
        .error (.dependencyCycle n) ∧ v = w := by
  constructor
  · intro h
    simp only [boot] at h
    split at h
    · next horder =>
      obtain ⟨he, hw⟩ := Prod.mk.inj h
      cases he
      exact ⟨horder, hw.symm⟩
    · split at h
      · next hregistered =>
        obtain ⟨he, -⟩ := Prod.mk.inj h
        cases he
        cases stopsPass_each stopsPass_register (congrArg Prod.fst hregistered)
      · split at h
        · next hinitialized =>
          obtain ⟨he, -⟩ := Prod.mk.inj h
          cases he
          cases stopsPass_initializeAll (congrArg Prod.fst hinitialized)
        · cases h
  · rintro ⟨horder, rfl⟩
    rw [listed] at horder
    simp only [boot, horder]

end World

namespace Order

/-- A failure is put down to a cycle exactly if there is one and all else is in order, by an order and by a boot alike.
The module that is named is the first that a cycle can be reached from. It is on a cycle itself exactly if no module
that merely leads to one is listed before all those that are on one. -/
theorem blamed_on_cycle_iff (n : String) :
    (∀ {α : Type} (name : α → String) (deps : α → List String) (ms : List α),
      (dependencyOrder name deps ms = .error (.dependencyCycle n) ↔ Blamed name deps ms n) ∧
      (Blamed name deps ms n → (OnCycle name deps ms n ↔ BystandersLater name deps ms))) ∧
    ∀ (run : ScriptRunner) (ids : List ℕ) (w v : World), World.boot run ids w = (.error (.dependencyCycle n), v) ↔
      Blamed (fun m : ℕ × Module ↦ m.2.name) (·.2.dependsOn) (World.listed ids w) n ∧ v = w := by
  refine ⟨fun name deps ms ↦ ⟨dependencyOrder_eq_cycle, Blamed.onCycle_iff⟩, fun run ids w v ↦ ?_⟩
  rw [World.boot_eq_cycle, dependencyOrder_eq_cycle]

theorem dependencyOrder_of_waiting {name : α → String} {deps : α → List String} {m : α} {ms : List α}
    (hdistinct : repeated? [] ((m :: ms).map name) = none) (hclosed : missing? name deps (m :: ms) = none)
    (hwait : (m :: ms).find? (ready deps []) = none) :
    dependencyOrder name deps (m :: ms) = .error (.dependencyCycle (name m)) := by
  rw [dependencyOrder, hdistinct, hclosed, arrange_of_waiting hwait]
  rfl

/-- Chat needs a party, and a party needs a guild that needs the party. -/
def ring : List (String × List String) := [("party", ["guild"]), ("guild", ["party"]), ("chat", ["party"])]

theorem blamed_on_cycle_iff_ring : Blamed Prod.fst Prod.snd ring "party" ∧ OnCycle Prod.fst Prod.snd ring "party" ∧
    BystandersLater Prod.fst Prod.snd ring := by
  have horder : dependencyOrder Prod.fst Prod.snd ring = .error (.dependencyCycle "party") :=
    dependencyOrder_of_waiting (by decide) (by decide) (by decide)
  have hcycle : OnCycle Prod.fst Prod.snd ring "party" :=
    .tail (.single ⟨("party", ["guild"]), by decide, rfl, by decide⟩) ⟨("guild", ["party"]), by decide, rfl, by decide⟩
  obtain ⟨hblamed, hiff⟩ := (blamed_on_cycle_iff "party").1 Prod.fst Prod.snd ring
  have hparty := hblamed.mp horder
  exact ⟨hparty, hcycle, (hiff hparty).mp hcycle⟩

/-- Chat needs a party, which needs itself: chat is said to be involved, although nothing needs it. -/
theorem bystander_blamed :
    let ms := [("chat", ["party"]), ("party", ["party"])]
    (ms.map Prod.fst).Nodup ∧ Closed Prod.fst Prod.snd ms ∧
      dependencyOrder Prod.fst Prod.snd ms = .error (.dependencyCycle "chat") ∧
      (Error.dependencyCycle "chat").message = "Dependency cycle involving module chat" ∧
      ¬ OnCycle Prod.fst Prod.snd ms "chat" := by
  intro ms
  refine ⟨by decide, missing?_eq_none.mp (by decide), ?_, by decide, ?_⟩
  · exact dependencyOrder_of_waiting (by decide) (by decide) (by decide)
  · intro hcycle
    obtain ⟨_, -, m, hm, -, hchat⟩ := Relation.TransGen.tail'_iff.mp hcycle
    have hnobody : ∀ m ∈ ms, "chat" ∉ m.2 := by decide
    exact hnobody m hm hchat

end Order
end GameHost
