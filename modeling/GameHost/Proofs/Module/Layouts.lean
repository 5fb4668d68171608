import GameHost.Module.Records
import GameHost.Proofs.Sequencing
import Mathlib.Data.Nat.Notation
import Mathlib.Tactic.ByContra

namespace GameHost

variable {V τ β : Type} [Typed V τ]

namespace Attachment

def extent (a : Attachment V) : ℕ := max a.part.size 1

def key (a : Attachment V) : RecordKey τ := ⟨a.offset, Typed.typeOf a.part.value⟩

end Attachment

/-- The attachments take up all bytes from one place to another, each behind the last. -/
def Tiles : ℕ → List (Attachment V) → ℕ → Prop
  | start, [], stop => start = stop
  | start, a :: as, stop => a.offset = start ∧ Tiles (start + a.extent) as stop

namespace Tiles

variable {start stop : ℕ} {as : List (Attachment V)}

theorem concat (h : Tiles start as stop) {a : Attachment V} (ha : a.offset = stop) :
    Tiles start (as ++ [a]) (stop + a.extent) := by
  induction as generalizing start with
  | nil =>
    cases h
    exact ⟨ha, rfl⟩
  | cons b as ih => exact ⟨h.1, ih h.2⟩

theorem within (h : Tiles start as stop) {a : Attachment V} (ha : a ∈ as) :
    start ≤ a.offset ∧ a.offset + a.extent ≤ stop := by
  induction as generalizing start a with
  | nil => cases ha
  | cons b as ih =>
    obtain ⟨hb, hrest⟩ := h
    have hend : start + b.extent ≤ stop := by
      cases as with
      | nil => exact Nat.le_of_eq hrest
      | cons c as =>
        have := ih hrest List.mem_cons_self
        omega
    rcases List.mem_cons.1 ha with rfl | ha
    · omega
    · have := ih hrest ha
      omega

theorem apart (h : Tiles start as stop) : as.Pairwise fun a b ↦ a.offset + a.extent ≤ b.offset := by
  induction as generalizing start with
  | nil => exact .nil
  | cons a as ih =>
    refine .cons (fun b hb ↦ ?_) (ih h.2)
    rw [h.1]
    exact (within h.2 hb).1

theorem sorted (h : Tiles start as stop) : as.Pairwise fun a b ↦ a.offset < b.offset := by
  refine h.apart.imp fun {a b} hab ↦ ?_
  have : 1 ≤ a.extent := Nat.le_max_right _ _
  omega

end Tiles

namespace Layout

structure Tiled (l : Layout V β) : Prop where
  tiles : Tiles l.base.size l.attached l.size
  room : l.attached.length ≤ attachmentCapacity

def attach (l : Layout V β) (requester : String) (part : Part V) : Layout V β :=
  { l with attached := l.attached ++ [⟨l.size, requester, part⟩], size := l.size + max part.size 1 }

omit [Typed V τ] in
def blank (l : Layout V β) (kind : UInt32) : Record V :=
  ⟨kind, l.base.value, l.attached.map fun a ↦ (a.offset, a.part.value)⟩

end Layout

namespace RecordTable

variable {t after : RecordTable V β} {kind k : UInt32} {l : Layout V β} {base part : Part V} {requester : String}
  {hook : β} {e : Error}

section

omit [Typed V τ]

theorem checkKind_of_lt (h : kind.toNat < recordKinds) : t.checkKind kind = .ok () := if_pos h

theorem checkKind_of_le (h : recordKinds ≤ kind.toNat) : t.checkKind kind = .error (.recordKind t.owner kind) :=
  if_neg (Nat.not_lt.2 h)

theorem layout?_of_le (h : recordKinds ≤ kind.toNat) : t.layout? kind = none := by
  rw [layout?, Vector.getElem?_eq_none h]
  rfl

theorem lt_of_layout? (h : t.layout? kind = some l) : kind.toNat < recordKinds := by
  by_contra hkind
  rw [layout?_of_le (Nat.not_lt.1 hkind)] at h
  cases h

theorem layout?_put (hkind : kind.toNat < recordKinds) :
    (t.put kind l).layout? k = if k = kind then some l else t.layout? k := by
  rw [layout?, put, Vector.getElem?_setIfInBounds]
  by_cases h : k = kind
  · rw [if_pos h, h, if_pos rfl, if_pos hkind]
    rfl
  · rw [if_neg h, if_neg fun heq ↦ h (UInt32.toNat_inj.1 heq).symm, layout?]

theorem layout_of_some (h : t.layout? kind = some l) : t.layout kind = .ok l := by
  simp only [layout, checkKind_of_lt (lt_of_layout? h), h]
  rfl

/-- What stands in the way of a call about a kind, and the error that tells so. -/
inductive Refusal (t : RecordTable V β) (kind : UInt32) : Error → Prop
  | range (h : recordKinds ≤ kind.toNat) : Refusal t kind (.recordKind t.owner kind)
  | closed (h : t.closed) : Refusal t kind (.wiring .layoutSealed)
  | missing (h : t.layout? kind = none) : Refusal t kind (.wiring .noLayout)
  | full {l : Layout V β} (hat : t.layout? kind = some l) (h : attachmentCapacity ≤ l.attached.length) :
      Refusal t kind (.attachmentCapacity t.owner kind)
  | inUse {l : Layout V β} (hat : t.layout? kind = some l) (h : l.attached ≠ []) :
      Refusal t kind (.wiring .layoutInUse)

theorem layout_cases (t : RecordTable V β) (kind : UInt32) :
    (∃ l, t.layout? kind = some l ∧ t.layout kind = .ok l) ∨ ∃ e, t.layout kind = .error e ∧ t.Refusal kind e := by
  cases hat : t.layout? kind with
  | some l => exact .inl ⟨l, rfl, layout_of_some hat⟩
  | none =>
    refine .inr ?_
    by_cases hkind : kind.toNat < recordKinds
    · refine ⟨_, ?_, .missing hat⟩
      simp only [layout, checkKind_of_lt hkind, hat]
      rfl
    · refine ⟨_, ?_, .range (Nat.not_lt.1 hkind)⟩
      simp only [layout, checkKind_of_le (Nat.not_lt.1 hkind)]
      rfl

theorem addHook_cases (t : RecordTable V β) (kind : UInt32) (hook : β) :
    (∃ l, t.layout? kind = some l ∧ t.addHook kind hook = .ok (t.put kind { l with hooks := l.hooks ++ [hook] })) ∨
      ∃ e, t.addHook kind hook = .error e ∧ t.Refusal kind e := by
  rcases t.layout_cases kind with ⟨l, hat, hlayout⟩ | ⟨e, hlayout, hrefused⟩
  · refine .inl ⟨l, hat, ?_⟩
    rw [addHook, hlayout]
    rfl
  · refine .inr ⟨e, ?_, hrefused⟩
    rw [addHook, hlayout]
    rfl

theorem create_of_some (h : t.layout? kind = some l) :
    t.create kind = .ok (l.blank kind, .made l.base :: l.attached.map fun a ↦ .made a.part) := by
  rw [create, layout_of_some h]
  rfl

theorem create_cases (t : RecordTable V β) (kind : UInt32) :
    (∃ l, t.layout? kind = some l ∧
      t.create kind = .ok (l.blank kind, .made l.base :: l.attached.map fun a ↦ .made a.part)) ∨
      ∃ e, t.create kind = .error e ∧ t.Refusal kind e := by
  rcases t.layout_cases kind with ⟨l, hat, -⟩ | ⟨e, hlayout, hrefused⟩
  · exact .inl ⟨l, hat, create_of_some hat⟩
  · refine .inr ⟨e, ?_, hrefused⟩
    rw [create, hlayout]
    rfl

theorem open_cases (t : RecordTable V β) (kind : UInt32) :
    (kind.toNat < recordKinds ∧ t.closed = false ∧ t.checkKind kind = .ok () ∧ t.checkOpen = .ok ()) ∨
      ∃ e, (t.checkKind kind >>= fun _ ↦ t.checkOpen) = .error e ∧ t.Refusal kind e := by
  by_cases hkind : kind.toNat < recordKinds
  · cases hclosed : t.closed with
    | false => exact .inl ⟨hkind, rfl, checkKind_of_lt hkind, by rw [checkOpen, hclosed]; rfl⟩
    | true =>
      refine .inr ⟨_, ?_, .closed hclosed⟩
      rw [checkKind_of_lt hkind, checkOpen, hclosed]
      rfl
  · refine .inr ⟨_, ?_, .range (Nat.not_lt.1 hkind)⟩
    rw [checkKind_of_le (Nat.not_lt.1 hkind)]
    rfl

end

theorem setLayout_cases (t : RecordTable V β) (kind : UInt32) (base : Part V) :
    (∃ hooks, kind.toNat < recordKinds ∧ t.closed = false ∧ (∀ l ∈ t.layout? kind, l.attached = []) ∧
      t.setLayout kind base = .ok (t.put kind ⟨base, [], base.size, hooks⟩)) ∨
      ∃ e, t.setLayout kind base = .error e ∧ t.Refusal kind e := by
  rcases t.open_cases kind with ⟨hkind, hopen, hcheck, hcheck'⟩ | ⟨e, hcheck, hrefused⟩
  · cases hat : t.layout? kind with
    | none =>
      refine .inl ⟨[], hkind, hopen, by simp, ?_⟩
      simp only [setLayout, hcheck, hcheck', hat]
      rfl
    | some l =>
      cases hattached : l.attached with
      | nil =>
        refine .inl ⟨l.hooks, hkind, hopen, by simpa using hattached, ?_⟩
        simp only [setLayout, hcheck, hcheck', hat, hattached]
        rfl
      | cons a as =>
        refine .inr ⟨_, ?_, .inUse hat (by simp [hattached])⟩
        simp only [setLayout, hcheck, hcheck', hat, hattached]
        rfl
  · refine .inr ⟨e, ?_, hrefused⟩
    rw [setLayout, ← bind_assoc, hcheck]
    rfl

theorem attach_cases (t : RecordTable V β) (kind : UInt32) (requester : String) (part : Part V) :
    (∃ l, t.layout? kind = some l ∧ t.closed = false ∧ l.attached.length < attachmentCapacity ∧
      t.attach kind requester part =
        .ok (⟨l.size, Typed.typeOf part.value⟩, t.put kind (l.attach requester part))) ∨
      ∃ e, t.attach kind requester part = .error e ∧ t.Refusal kind e := by
  rcases t.open_cases kind with ⟨hkind, hopen, hcheck, hcheck'⟩ | ⟨e, hcheck, hrefused⟩
  · cases hat : t.layout? kind with
    | none =>
      refine .inr ⟨_, ?_, .missing hat⟩
      simp only [attach, hcheck, hcheck', hat]
      rfl
    | some l =>
      by_cases hfull : attachmentCapacity ≤ l.attached.length
      · refine .inr ⟨_, ?_, .full hat hfull⟩
        simp only [attach, hcheck, hcheck', hat, if_pos hfull]
        rfl
      · refine .inl ⟨l, rfl, hopen, Nat.not_le.1 hfull, ?_⟩
        simp only [attach, hcheck, hcheck', hat, if_neg hfull]
        rfl
  · refine .inr ⟨e, ?_, hrefused⟩
    rw [attach, ← bind_assoc, hcheck]
    rfl

theorem exists_of_setLayout (h : t.setLayout kind base = .ok after) :
    ∃ hooks, kind.toNat < recordKinds ∧ t.closed = false ∧ (∀ l ∈ t.layout? kind, l.attached = []) ∧
      after = t.put kind ⟨base, [], base.size, hooks⟩ := by
  rcases t.setLayout_cases kind base with ⟨hooks, hkind, hopen, hbare, hset⟩ | ⟨e, hset, -⟩
  · rw [hset] at h
    exact ⟨hooks, hkind, hopen, hbare, (Except.ok.inj h).symm⟩
  · rw [hset] at h
    cases h

theorem exists_of_attach {key : RecordKey τ} (h : t.attach kind requester part = .ok (key, after)) :
    ∃ l, t.layout? kind = some l ∧ t.closed = false ∧ l.attached.length < attachmentCapacity ∧
      key = ⟨l.size, Typed.typeOf part.value⟩ ∧ after = t.put kind (l.attach requester part) := by
  rcases t.attach_cases kind requester part with ⟨l, hat, hopen, hroom, hattach⟩ | ⟨e, hattach, -⟩
  · rw [hattach] at h
    cases h
    exact ⟨l, hat, hopen, hroom, rfl, rfl⟩
  · rw [hattach] at h
    cases h

omit [Typed V τ] in
theorem exists_of_addHook (h : t.addHook kind hook = .ok after) :
    ∃ l, t.layout? kind = some l ∧ after = t.put kind { l with hooks := l.hooks ++ [hook] } := by
  rcases t.addHook_cases kind hook with ⟨l, hat, hadd⟩ | ⟨e, hadd, -⟩
  · rw [hadd] at h
    exact ⟨l, hat, (Except.ok.inj h).symm⟩
  · rw [hadd] at h
    cases h

omit [Typed V τ] in
theorem exists_of_create {r : Record V} {events : List (PartEvent V)} (h : t.create kind = .ok (r, events)) :
    ∃ l, t.layout? kind = some l ∧ r = l.blank kind := by
  rcases t.create_cases kind with ⟨l, hat, hcreate⟩ | ⟨e, hcreate, -⟩
  · rw [hcreate] at h
    cases h
    exact ⟨l, hat, rfl⟩
  · rw [hcreate] at h
    cases h

/-- All that is done to a table. -/
inductive Altered (t : RecordTable V β) : RecordTable V β → Prop
  | laidOut {kind : UInt32} {base : Part V} {hooks : List β} (hkind : kind.toNat < recordKinds)
      (hopen : t.closed = false) (hbare : ∀ l ∈ t.layout? kind, l.attached = []) :
      Altered t (t.put kind ⟨base, [], base.size, hooks⟩)
  | extended {kind : UInt32} {requester : String} {part : Part V} {l : Layout V β} (hat : t.layout? kind = some l)
      (hopen : t.closed = false) (hroom : l.attached.length < attachmentCapacity) :
      Altered t (t.put kind (l.attach requester part))
  | hooked {kind : UInt32} {hook : β} {l : Layout V β} (hat : t.layout? kind = some l) :
      Altered t (t.put kind { l with hooks := l.hooks ++ [hook] })
  | closed : Altered t t.close

theorem altered_setLayout (h : t.setLayout kind base = .ok after) : t.Altered after := by
  obtain ⟨hooks, hkind, hopen, hbare, rfl⟩ := exists_of_setLayout h
  exact .laidOut hkind hopen hbare

theorem altered_attach {key : RecordKey τ} (h : t.attach kind requester part = .ok (key, after)) : t.Altered after := by
  obtain ⟨l, hat, hopen, hroom, -, rfl⟩ := exists_of_attach h
  exact .extended hat hopen hroom

theorem altered_addHook (h : t.addHook kind hook = .ok after) : t.Altered after := by
  obtain ⟨l, hat, rfl⟩ := exists_of_addHook h
  exact .hooked hat

def Tiled (t : RecordTable V β) : Prop := ∀ kind l, t.layout? kind = some l → l.Tiled

theorem Tiled.put (h : t.Tiled) (hkind : kind.toNat < recordKinds) (hl : l.Tiled) : (t.put kind l).Tiled := by
  intro k l' hat
  rw [layout?_put hkind] at hat
  split at hat
  · cases hat
    exact hl
  · exact h k l' hat

theorem Tiled.altered (h : t.Tiled) (ha : t.Altered after) : after.Tiled := by
  cases ha with
  | laidOut hkind _ _ => exact h.put hkind ⟨rfl, Nat.zero_le _⟩
  | @extended kind requester part l hat _ hroom =>
    refine h.put (lt_of_layout? hat) ⟨?_, ?_⟩
    · exact (h kind l hat).tiles.concat rfl
    · rw [Layout.attach, List.length_append]
      exact hroom
  | @hooked kind hook l hat => exact h.put (lt_of_layout? hat) ⟨(h kind l hat).tiles, (h kind l hat).room⟩
  | closed => exact h

omit [Typed V τ] in
theorem layout?_empty (owner : String) (kind : UInt32) : (empty owner : RecordTable V β).layout? kind = none := by
  rw [layout?, empty, Vector.getElem?_replicate]
  split <;> rfl

theorem tiled_empty (owner : String) : (empty owner : RecordTable V β).Tiled := by
  intro kind l hat
  rw [layout?_empty] at hat
  cases hat

omit [Typed V τ] in
def attachedTo (t : RecordTable V β) (kind : UInt32) : List (Attachment V) :=
  ((t.layout? kind).map (·.attached)).getD []

omit [Typed V τ] in
theorem attachedTo_of_some (hat : t.layout? kind = some l) : t.attachedTo kind = l.attached := by
  rw [attachedTo, hat]
  rfl

omit [Typed V τ] in
theorem exists_layout_of_mem {a : Attachment V} (ha : a ∈ t.attachedTo kind) :
    ∃ l, t.layout? kind = some l ∧ a ∈ l.attached := by
  cases hat : t.layout? kind with
  | none =>
    rw [attachedTo, hat] at ha
    cases ha
  | some l => exact ⟨l, rfl, attachedTo_of_some hat ▸ ha⟩

omit [Typed V τ] in
theorem attachedTo_put (hkind : kind.toNat < recordKinds) (k : UInt32) :
    (t.put kind l).attachedTo k = if k = kind then l.attached else t.attachedTo k := by
  rw [attachedTo, layout?_put hkind]
  split <;> rfl

omit [Typed V τ] in
theorem attachedTo_of_bare (hbare : ∀ l ∈ t.layout? kind, l.attached = []) : t.attachedTo kind = [] := by
  cases hat : t.layout? kind with
  | none => rw [attachedTo, hat]; rfl
  | some l => rw [attachedTo_of_some hat, hbare l hat]

omit [Typed V τ] in
theorem attachedTo_put_same (hkind : kind.toNat < recordKinds) (hsame : t.attachedTo kind = l.attached) (k : UInt32) :
    (t.put kind l).attachedTo k = t.attachedTo k := by
  rw [attachedTo_put hkind]
  split
  · next heq => rw [heq, hsame]
  · rfl

omit [Typed V τ] in
theorem attachedTo_laidOut (hkind : kind.toNat < recordKinds) (hbare : ∀ l ∈ t.layout? kind, l.attached = [])
    (n : ℕ) (hooks : List β) (k : UInt32) : (t.put kind ⟨base, [], n, hooks⟩).attachedTo k = t.attachedTo k :=
  attachedTo_put_same hkind (attachedTo_of_bare hbare) k

omit [Typed V τ] in
theorem attachedTo_hooked (hat : t.layout? kind = some l) (hooks : List β) (k : UInt32) :
    (t.put kind { l with hooks }).attachedTo k = t.attachedTo k := by
  refine attachedTo_put_same (lt_of_layout? hat) ?_ k
  rw [attachedTo_of_some hat]

theorem Altered.attachedTo_prefix (h : t.Altered after) (k : UInt32) : t.attachedTo k <+: after.attachedTo k := by
  cases h with
  | laidOut hkind _ hbare => simp only [attachedTo_laidOut hkind hbare, List.prefix_rfl]
  | extended hat _ _ =>
    rw [attachedTo_put (lt_of_layout? hat)]
    split
    · next heq =>
      rw [heq, attachedTo_of_some hat]
      exact List.prefix_append _ _
    · exact List.prefix_rfl
  | hooked hat => simp only [attachedTo_hooked hat, List.prefix_rfl]
  | closed => exact List.prefix_rfl

end RecordTable

end GameHost
