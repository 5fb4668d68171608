import GameHost.Proofs.Module.Precedence

namespace GameHost.Order

variable {α : Type} {name : α → String} {deps : α → List String}

theorem repeated?_eq_none {seen ns : List String} :
    repeated? seen ns = none ↔ ns.Nodup ∧ ∀ n ∈ ns, n ∉ seen := by
  induction ns generalizing seen with
  | nil => simp [repeated?]
  | cons n ns ih =>
    rw [repeated?]
    split
    · next hseen => simp [hseen]
    · next hseen =>
      rw [ih, List.nodup_cons]
      grind

theorem repeated?_eq_some {seen ns : List String} {n : String} (h : repeated? seen ns = some n) :
    ∃ before after, ns = before ++ n :: after ∧ before.Nodup ∧ (n ∈ seen ∨ n ∈ before) ∧
      ∀ x ∈ before, x ∉ seen := by
  induction ns generalizing seen with
  | nil => cases h
  | cons x xs ih =>
    rw [repeated?] at h
    split at h
    · next hseen =>
      cases h
      exact ⟨[], xs, rfl, List.nodup_nil, .inl hseen, by simp⟩
    · next hseen =>
      obtain ⟨before, after, rfl, hnodup, hmem, hfresh⟩ := ih h
      refine ⟨x :: before, after, rfl, List.nodup_cons.mpr ⟨?_, hnodup⟩, ?_, ?_⟩
      · intro hx
        exact hfresh x hx List.mem_cons_self
      · rcases hmem with hmem | hmem
        · rcases List.mem_cons.mp hmem with rfl | hmem
          · exact .inr List.mem_cons_self
          · exact .inl hmem
        · exact .inr (List.mem_cons_of_mem x hmem)
      · intro y hy
        rcases List.mem_cons.mp hy with rfl | hy
        · exact hseen
        · exact fun hs ↦ hfresh y hy (List.mem_cons_of_mem x hs)

variable (name deps)

def Closed (ms : List α) : Prop := ∀ m ∈ ms, ∀ d ∈ deps m, d ∈ ms.map name

def place (ms : List α) (m : α) : Nat := (ms.map name).idxOf (name m)

/-- What comes of a list of modules: conditions that exclude each other, each with its answer. -/
inductive Arranged (ms : List α) : Except Error (List α) → Prop
  | duplicate {before after : List α} {m : α} (split : ms = before ++ m :: after)
      (distinct : (before.map name).Nodup) (again : name m ∈ before.map name) :
      Arranged ms (.error (.duplicateModule (name m)))
  | missing {before after : List α} {m : α} {known more : List String} {d : String}
      (distinct : (ms.map name).Nodup) (split : ms = before ++ m :: after)
      (earlier : ∀ p ∈ before, ∀ k ∈ deps p, k ∈ ms.map name) (needs : deps m = known ++ d :: more)
      (listed : ∀ k ∈ known, k ∈ ms.map name) (unknown : d ∉ ms.map name) :
      Arranged ms (.error (.missingDependency (name m) d))
  | cycle {m : α} (distinct : (ms.map name).Nodup) (closed : Closed name deps ms)
      (cyclic : Cyclic name deps ms) (member : m ∈ ms) :
      Arranged ms (.error (.dependencyCycle (name m)))
  | ordered {out : List α} (distinct : (ms.map name).Nodup) (closed : Closed name deps ms)
      (acyclic : ¬ Cyclic name deps ms) (perm : out.Perm ms) (order : InOrder name deps [] out)
      (least : ∀ other : List α, other.Perm ms → InOrder name deps [] other →
        other = out ∨ List.Lex (· < ·) (out.map (place name ms)) (other.map (place name ms))) :
      Arranged ms (.ok out)

variable {name deps} {ms : List α}

theorem duplicate_of_repeated? {n : String} (h : repeated? [] (ms.map name) = some n) :
    Arranged name deps ms (.error (.duplicateModule n)) := by
  obtain ⟨before, after, hnames, hnodup, hmem, -⟩ := repeated?_eq_some h
  obtain ⟨front, rest, rfl, rfl, hrest⟩ := List.map_eq_append_iff.mp hnames
  obtain ⟨m, back, rfl, rfl, rfl⟩ := List.map_eq_cons_iff.mp hrest
  exact .duplicate rfl hnodup (hmem.resolve_left List.not_mem_nil)

theorem missing?_eq_none : missing? name deps ms = none ↔ Closed name deps ms := by
  unfold missing? Closed
  simp [List.findSome?_eq_none_iff, List.find?_eq_none]

theorem missing_of_missing? {n d : String} (hnodup : (ms.map name).Nodup)
    (h : missing? name deps ms = some (n, d)) : Arranged name deps ms (.error (.missingDependency n d)) := by
  obtain ⟨before, m, after, hsplit, hm, hbefore⟩ := List.findSome?_eq_some_iff.mp h
  obtain ⟨d', hfind, hpair⟩ := Option.map_eq_some_iff.mp hm
  obtain ⟨rfl, rfl⟩ := Prod.mk.inj hpair
  obtain ⟨hunknown, known, more, hneeds, hknown⟩ := List.find?_eq_some_iff_append.mp hfind
  refine .missing hnodup hsplit ?_ hneeds ?_ ?_
  · intro p hp k hk
    have hnone := List.find?_eq_none.mp (Option.map_eq_none_iff.mp (hbefore p hp)) k hk
    simpa using hnone
  · intro k hk
    simpa using hknown k hk
  · simpa using hunknown

theorem place_pairwise (hnodup : (ms.map name).Nodup) :
    ms.Pairwise (place name ms · < place name ms ·) := by
  rw [List.pairwise_iff_getElem]
  intro i j hi hj hij
  have hplace (k : Nat) (hk : k < ms.length) : place name ms ms[k] = k := by
    have hk' : k < (ms.map name).length := by rwa [List.length_map]
    have hget : (ms.map name)[k] = name ms[k] := List.getElem_map ..
    rw [place, ← hget, hnodup.idxOf_getElem k hk']
  rw [hplace i hi, hplace j hj]
  exact hij

theorem arranged_of_distinct (hnodup : (ms.map name).Nodup) (hclosed : Closed name deps ms) :
    Arranged name deps ms ((arrange name deps [] ms).mapError .dependencyCycle) := by
  cases h : arrange name deps [] ms with
  | error n =>
    obtain ⟨done, left, ⟨m, rest, hleft, rfl⟩, hsub, hnames, hwait⟩ := arrange_eq_error h
    have hmem : m ∈ left := by
      rw [hleft]
      exact List.mem_cons_self
    refine .cycle hnodup hclosed (cyclic_of_waiting (List.ne_nil_of_mem hmem) hsub ?_) (hsub hmem)
    intro x hx
    obtain ⟨d, hd, hdone⟩ := hwait x hx
    exact ⟨d, hd, (hnames d (.inr (hclosed x (hsub hx) d hd))).resolve_left hdone⟩
  | ok out =>
    obtain ⟨hperm, horder⟩ := arrange_eq_ok h
    refine .ordered hnodup hclosed ?_ hperm horder ?_
    · intro hcyclic
      exact horder.acyclic ((hperm.map name).nodup_iff.mpr hnodup) (hcyclic.perm hperm.symm)
    · intro other hother horder'
      exact arrange_least (place_pairwise hnodup) h hother horder'

/-- A table of slots from which modules are taken one by one, and those taken so far. -/
structure Slots (α : Type) where
  slots : List (Option α)
  placed : List String
  ordered : List α

namespace Slots

def ofList (ms : List α) : Slots α := ⟨ms.map some, [], []⟩

def pending (t : Slots α) : List α := t.slots.filterMap id

variable (name deps)

/-- Takes the first module that is ready out of its slot. If there is none, the answer is the name of the
first that is left. -/
def take? (t : Slots α) : Except String (Slots α) :=
  match t.slots.findIdx? (·.any (ready deps t.placed)) with
  | none => .error ((t.pending.head?.map name).getD "")
  | some i =>
    match t.slots[i]?.join with
    | some m => .ok ⟨t.slots.set i none, name m :: t.placed, t.ordered ++ [m]⟩
    | none => .ok t

/-- Goes on as long as some module has not been taken, for at most so many rounds. -/
def run : Nat → Slots α → Option (Except String (List α))
  | 0, _ => none
  | rounds + 1, t =>
    if t.ordered.length < t.slots.length then
      match take? name deps t with
      | .ok t => run rounds t
      | .error n => some (.error n)
    else some (.ok t.ordered)

variable {name deps}

theorem findIdx?_eq_none {slots : List (Option α)} {p : α → Bool}
    (h : (slots.filterMap id).find? p = none) : slots.findIdx? (·.any p) = none := by
  rw [List.findIdx?_eq_none_iff]
  intro slot hslot
  cases slot with
  | none => rfl
  | some m =>
    have hm : m ∈ slots.filterMap id := List.mem_filterMap.mpr ⟨some m, hslot, rfl⟩
    simpa using List.find?_eq_none.mp h m hm

theorem findIdx?_eq_some {slots : List (Option α)} {p : α → Bool} {m : α}
    (h : (slots.filterMap id).find? p = some m) : ∃ i, slots.findIdx? (·.any p) = some i ∧
      slots[i]? = some (some m) ∧ (slots.set i none).filterMap id = (slots.filterMap id).eraseP p := by
  induction slots with
  | nil => cases h
  | cons slot slots ih =>
    cases slot with
    | none =>
      obtain ⟨i, hi, hget, hset⟩ := ih h
      refine ⟨i + 1, ?_, hget, hset⟩
      rw [List.findIdx?_cons, hi]
      rfl
    | some x =>
      have hcons : (some x :: slots).filterMap id = x :: slots.filterMap id := rfl
      rw [hcons] at h ⊢
      cases hx : p x with
      | true =>
        rw [List.find?_cons_of_pos hx] at h
        cases h
        refine ⟨0, ?_, rfl, ?_⟩
        · rw [List.findIdx?_cons]
          exact if_pos hx
        · rw [List.eraseP_cons_of_pos hx]
          rfl
      | false =>
        have hx' : ¬ p x = true := Bool.eq_false_iff.mp hx
        rw [List.find?_cons_of_neg hx'] at h
        obtain ⟨i, hi, hget, hset⟩ := ih h
        refine ⟨i + 1, ?_, hget, ?_⟩
        · rw [List.findIdx?_cons, hi]
          exact if_neg hx'
        · rw [List.eraseP_cons_of_neg hx', ← hset]
          rfl

/-- Every round takes a module out of its slot, so there are no more rounds than modules that are left,
and one more to see that none is. -/
theorem run_eq {t : Slots α} {rounds : Nat} (hcount : t.ordered.length + t.pending.length = t.slots.length)
    (hrounds : t.pending.length < rounds) :
    run name deps rounds t = some ((arrange name deps t.placed t.pending).map (t.ordered ++ ·)) := by
  induction rounds generalizing t with
  | zero => cases hrounds
  | succ rounds ih =>
    rw [run]
    cases hfind : t.pending.find? (ready deps t.placed) with
    | none =>
      cases hpending : t.pending with
      | nil =>
        rw [hpending, List.length_nil] at hcount
        rw [if_neg (by omega), arrange_nil]
        exact congrArg some (congrArg Except.ok (List.append_nil _).symm)
      | cons m ms =>
        rw [hpending, List.length_cons] at hcount
        rw [if_pos (by omega), take?, findIdx?_eq_none hfind, hpending]
        rw [hpending] at hfind
        rw [arrange_of_waiting hfind]
        rfl
    | some m =>
      have hm : m ∈ t.pending := List.mem_of_find?_eq_some hfind
      have hpos : 0 < t.pending.length := List.length_pos_of_mem hm
      obtain ⟨i, hi, hget, hset⟩ := findIdx?_eq_some hfind
      let next : Slots α := ⟨t.slots.set i none, name m :: t.placed, t.ordered ++ [m]⟩
      have hnext : next.pending = t.pending.eraseP (ready deps t.placed) := hset
      have hlen : next.pending.length + 1 = t.pending.length := by
        rw [hnext, List.length_eraseP_of_mem hm (List.find?_some hfind)]
        omega
      have hslots : next.slots.length = t.slots.length := List.length_set
      have hordered : next.ordered.length = t.ordered.length + 1 := List.length_append
      have htake : take? name deps t = .ok next := by
        rw [take?, hi]
        simp only [hget, Option.join_some]
        rfl
      rw [if_pos (by omega), htake, arrange_of_ready hfind]
      change run name deps rounds next = _
      rw [ih (by omega) (by omega), hnext]
      change some ((arrange name deps (name m :: t.placed) _).map (t.ordered ++ [m] ++ ·)) = _
      cases arrange name deps (name m :: t.placed) (t.pending.eraseP (ready deps t.placed)) with
      | error n => rfl
      | ok out => exact congrArg some (congrArg Except.ok (List.append_cons ..).symm)

theorem run_ofList (ms : List α) (spare : Nat) :
    run name deps (ms.length + 1 + spare) (ofList ms) = some (arrange name deps [] ms) := by
  have hpending : (ofList ms).pending = ms := by
    rw [pending, ofList, List.filterMap_map]
    exact List.filterMap_some
  rw [run_eq (by rw [hpending]; simp [ofList]) (by rw [hpending]; omega), hpending]
  change some ((arrange name deps [] ms).map ([] ++ ·)) = _
  cases arrange name deps [] ms <;> rfl

end Slots

variable (name deps) in
/-- Modules are put into the first of all orders that keep their dependencies, and one that they are in
already stays. The loop that takes them from their slots ends after at most one round more than there are
modules, with the same order. -/
theorem dependencyOrder_arranged (ms : List α) : Arranged name deps ms (dependencyOrder name deps ms) ∧
    ((ms.map name).Nodup → InOrder name deps [] ms → dependencyOrder name deps ms = .ok ms) ∧
    ∀ spare, Slots.run name deps (ms.length + 1 + spare) (.ofList ms) = some (arrange name deps [] ms) := by
  refine ⟨?_, ?_, Slots.run_ofList ms⟩
  · unfold dependencyOrder
    split
    · next hrepeated => exact duplicate_of_repeated? hrepeated
    · next hrepeated hmissing => exact missing_of_missing? (repeated?_eq_none.mp hrepeated).1 hmissing
    · next hrepeated hmissing =>
      exact arranged_of_distinct (repeated?_eq_none.mp hrepeated).1 (missing?_eq_none.mp hmissing)
  · intro hnodup horder
    have hrepeated : repeated? [] (ms.map name) = none :=
      repeated?_eq_none.mpr ⟨hnodup, fun _ _ ↦ List.not_mem_nil⟩
    have hclosed : Closed name deps ms := by
      intro m hm d hd
      have hlt := (horder.idxOf_lt hnodup hm hd).resolve_left List.not_mem_nil
      exact List.idxOf_lt_length_iff.mp (hlt.trans_le List.idxOf_le_length)
    rw [dependencyOrder, hrepeated, missing?_eq_none.mpr hclosed, arrange_of_inOrder horder]
    rfl

def sample : List (String × List String) :=
  [("item", []), ("character", []), ("chat", ["character"]), ("party", ["character", "chat"])]

theorem dependencyOrder_arranged_sample : (sample.map Prod.fst).Nodup ∧
    InOrder Prod.fst Prod.snd [] sample ∧ dependencyOrder Prod.fst Prod.snd sample = .ok sample ∧
    Arranged Prod.fst Prod.snd sample (.ok sample) := by
  have hnodup : (sample.map Prod.fst).Nodup := by decide
  have horder : InOrder Prod.fst Prod.snd [] sample := by simp [sample, InOrder]
  obtain ⟨harranged, hstays, -⟩ := dependencyOrder_arranged Prod.fst Prod.snd sample
  have hok := hstays hnodup horder
  exact ⟨hnodup, horder, hok, hok ▸ harranged⟩

end GameHost.Order
