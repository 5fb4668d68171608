import GameHost.Module.Perform
import GameHost.Proofs.Module.Halving
import GameHost.Proofs.Module.Layouts

namespace GameHost

variable {V τ β : Type} [Typed V τ]

def Record.keys (r : Record V) : List (RecordKey τ) := r.slots.map fun s ↦ ⟨s.1, Typed.typeOf s.2⟩

structure Issue (τ : Type) where
  kind : UInt32
  requester : String
  key : RecordKey τ

/-- Next to each record stands how many keys had been issued when it was made. -/
structure Ledger (V τ β : Type) where
  table : RecordTable V β
  issued : List (Issue τ)
  records : List (Record V × ℕ)

namespace Ledger

def start (owner : String) : Ledger V τ β := ⟨.empty owner, [], []⟩

def issuedFor (s : Ledger V τ β) (kind : UInt32) : List (Issue τ) := s.issued.filter (·.kind = kind)

/-- The table's attachments are those that keys were issued for, and a record has values for the keys of its kind that
had been issued when it was made. -/
structure Sound (s : Ledger V τ β) : Prop where
  tiled : s.table.Tiled
  issued (kind : UInt32) : s.issuedFor kind = (s.table.attachedTo kind).map fun a ↦ ⟨kind, a.module, a.key⟩
  counted : ∀ p ∈ s.records, p.2 ≤ s.issued.length
  carried : ∀ p ∈ s.records, p.1.keys = ((s.issued.take p.2).filter (·.kind = p.1.kind)).map (·.key)

theorem sound_start (owner : String) : (start owner : Ledger V τ β).Sound := by
  refine ⟨RecordTable.tiled_empty owner, fun kind ↦ ?_, by simp [start], by simp [start]⟩
  simp [start, issuedFor, RecordTable.attachedTo, RecordTable.layout?_empty]

namespace Sound

variable {s : Ledger V τ β}

theorem sorted_issuedFor (h : s.Sound) (kind : UInt32) :
    (s.issuedFor kind).Pairwise fun a b ↦ a.key.offset < b.key.offset := by
  rw [h.issued, List.pairwise_map]
  cases hat : s.table.layout? kind with
  | none => simp [RecordTable.attachedTo, hat]
  | some l =>
    simp only [RecordTable.attachedTo, hat, Option.map_some, Option.getD_some]
    exact (h.tiled kind l hat).tiles.sorted

variable {i j : ℕ} {a b : Issue τ}

theorem lt_of_issued (h : s.Sound) (ha : s.issued[i]? = some a) (hb : s.issued[j]? = some b)
    (hkind : a.kind = b.kind) (hij : i < j) : a.key.offset < b.key.offset := by
  obtain ⟨hi, rfl⟩ := List.getElem?_eq_some_iff.1 ha
  obtain ⟨hj, rfl⟩ := List.getElem?_eq_some_iff.1 hb
  have hsorted := List.pairwise_filter.1 (h.sorted_issuedFor s.issued[i].kind)
  exact List.pairwise_iff_getElem.1 hsorted i j hi hj hij (by simp) (by simp [hkind])

/-- No two keys of a kind have the same offset. -/
theorem issued_inj (h : s.Sound) (ha : s.issued[i]? = some a) (hb : s.issued[j]? = some b) (hkind : a.kind = b.kind)
    (hoffset : a.key.offset = b.key.offset) : i = j := by
  rcases Nat.lt_trichotomy i j with hlt | heq | hgt
  · exact absurd hoffset (Nat.ne_of_lt (h.lt_of_issued ha hb hkind hlt))
  · exact heq
  · exact absurd hoffset (Nat.ne_of_gt (h.lt_of_issued hb ha hkind.symm hgt))

theorem sorted_slots (h : s.Sound) {p : Record V × ℕ} (hp : p ∈ s.records) : p.1.slots.Pairwise (·.1 < ·.1) := by
  have hsub : ((s.issued.take p.2).filter (·.kind = p.1.kind)).Sublist (s.issuedFor p.1.kind) :=
    (List.take_sublist p.2 s.issued).filter _
  have hkeys : p.1.keys.Pairwise fun a b ↦ a.offset < b.offset := by
    rw [h.carried p hp, List.pairwise_map]
    exact (h.sorted_issuedFor p.1.kind).sublist hsub
  rwa [Record.keys, List.pairwise_map] at hkeys

theorem retable (h : s.Sound) {table : RecordTable V β} (haltered : s.table.Altered table)
    (hsame : ∀ kind, table.attachedTo kind = s.table.attachedTo kind) : Sound { s with table } :=
  ⟨h.tiled.altered haltered, fun kind ↦ (h.issued kind).trans (by rw [hsame]), h.counted, h.carried⟩

theorem issue (h : s.Sound) {kind : UInt32} {requester : String} {part : Part V} {l : Layout V β}
    (hat : s.table.layout? kind = some l) (hopen : s.table.closed = false)
    (hroom : l.attached.length < attachmentCapacity) :
    Sound { s with
      table := s.table.put kind (l.attach requester part)
      issued := s.issued ++ [⟨kind, requester, ⟨l.size, Typed.typeOf part.value⟩⟩] } := by
  refine ⟨h.tiled.altered (.extended hat hopen hroom), fun k ↦ ?_, fun p hp ↦ ?_, fun p hp ↦ ?_⟩
  · have hbefore := h.issued k
    rw [issuedFor] at hbefore ⊢
    rw [List.filter_append, hbefore, RecordTable.attachedTo_put (RecordTable.lt_of_layout? hat)]
    by_cases hk : k = kind
    · rw [hk, if_pos rfl, RecordTable.attachedTo_of_some hat]
      simp [Layout.attach, Attachment.key]
    · rw [if_neg hk]
      simp [Ne.symm hk]
  · rw [List.length_append]
    exact Nat.le_trans (h.counted p hp) (Nat.le_add_right _ _)
  · rw [List.take_append_of_le_length (h.counted p hp)]
    exact h.carried p hp

theorem make (h : s.Sound) {kind : UInt32} {l : Layout V β} (hat : s.table.layout? kind = some l) :
    Sound { s with records := s.records ++ [(l.blank kind, s.issued.length)] } := by
  refine ⟨h.tiled, h.issued, fun p hp ↦ ?_, fun p hp ↦ ?_⟩
  · rcases List.mem_append.1 hp with hp | hp
    · exact h.counted p hp
    · obtain rfl := List.mem_singleton.1 hp
      exact Nat.le_refl _
  · rcases List.mem_append.1 hp with hp | hp
    · exact h.carried p hp
    · rw [List.mem_singleton.1 hp, List.take_length]
      have hissued := h.issued kind
      rw [RecordTable.attachedTo_of_some hat] at hissued
      show _ = (s.issuedFor kind).map _
      rw [hissued]
      simp [Record.keys, Layout.blank, Attachment.key]

theorem rewrite (h : s.Sound) (i : ℕ) {f : Record V → Record V}
    (hf : ∀ p ∈ s.records, (f p.1).kind = p.1.kind ∧ (f p.1).keys = p.1.keys) :
    Sound { s with records := s.records.modify i fun p ↦ (f p.1, p.2) } := by
  have hmem {q : Record V × ℕ} (hq : q ∈ s.records.modify i fun p ↦ (f p.1, p.2)) :
      ∃ p ∈ s.records, q.2 = p.2 ∧ q.1.kind = p.1.kind ∧ q.1.keys = p.1.keys := by
    obtain ⟨j, hj⟩ := List.mem_iff_getElem?.1 hq
    rw [List.getElem?_modify, Option.map_eq_map, Option.map_eq_some_iff] at hj
    obtain ⟨p, hp, rfl⟩ := hj
    refine ⟨p, List.mem_of_getElem? hp, ?_⟩
    split
    · exact ⟨rfl, hf p (List.mem_of_getElem? hp)⟩
    · exact ⟨rfl, rfl, rfl⟩
  refine ⟨h.tiled, h.issued, fun q hq ↦ ?_, fun q hq ↦ ?_⟩
  · obtain ⟨p, hp, hn, -, -⟩ := hmem hq
    rw [hn]
    exact h.counted p hp
  · obtain ⟨p, hp, hn, hkind, hkeys⟩ := hmem hq
    rw [hkeys, hn, hkind]
    exact h.carried p hp

end Sound
end Ledger

variable [DecidableEq τ]

namespace Record

variable {r after : Record V} {key other : RecordKey τ} {v : V}

theorem get?_eq_some : r.get? key = some v ↔ r.slots.lookup key.offset = some v ∧ Typed.typeOf v = key.type := by
  rw [get?, Option.filter_eq_some_iff, decide_eq_true_eq]

theorem isSome_get? (hsorted : r.slots.Pairwise (·.1 < ·.1)) : (r.get? key).isSome ↔ key ∈ r.keys := by
  simp only [Option.isSome_iff_exists, get?_eq_some, Slots.lookup_eq_some hsorted, keys, List.mem_map]
  constructor
  · rintro ⟨v, hmem, htype⟩
    exact ⟨_, hmem, by rw [htype]⟩
  · rintro ⟨s, hmem, rfl⟩
    exact ⟨s.2, hmem, rfl⟩

theorem set?_eq_some : r.set? key v = some after ↔ (r.get? key).isSome ∧ Typed.typeOf v = key.type ∧
    { r with slots := r.slots.map fun s ↦ if s.1 = key.offset then (s.1, v) else s } = after := by
  rw [set?, Option.ite_none_right_eq_some, Option.some.injEq, and_assoc]

theorem keys_set? (hsorted : r.slots.Pairwise (·.1 < ·.1)) (h : r.set? key v = some after) : after.keys = r.keys := by
  obtain ⟨hsome, htype, rfl⟩ := set?_eq_some.1 h
  obtain ⟨u, hread⟩ := Option.isSome_iff_exists.1 hsome
  obtain ⟨hat, htype'⟩ := get?_eq_some.1 hread
  rw [keys, keys, List.map_map]
  refine List.map_congr_left fun s hs ↦ ?_
  rw [Function.comp_apply]
  split
  · next heq =>
    have hown : r.slots.lookup key.offset = some s.2 := (Slots.lookup_eq_some hsorted).2 (heq ▸ hs)
    rw [hat] at hown
    rw [htype, ← htype', Option.some.inj hown]
  · rfl

omit [DecidableEq τ] [Typed V τ] in
theorem lookup_replaced (slots : List (ℕ × V)) (offset o : ℕ) (v : V) :
    (slots.map fun s ↦ if s.1 = offset then (s.1, v) else s).lookup o =
      (slots.lookup o).map fun u ↦ if o = offset then v else u := by
  induction slots with
  | nil => rfl
  | cons s slots ih =>
    have hfst : (if s.1 = offset then (s.1, v) else s).1 = s.1 := by split <;> rfl
    rw [List.map_cons, List.lookup_cons, List.lookup_cons, hfst, ih]
    cases heq : o == s.1 with
    | false => rfl
    | true =>
      rw [eq_of_beq heq]
      by_cases hs : s.1 = offset <;> simp [hs]

theorem get?_set?_self (h : r.set? key v = some after) : after.get? key = some v := by
  obtain ⟨hsome, htype, rfl⟩ := set?_eq_some.1 h
  obtain ⟨u, hread⟩ := Option.isSome_iff_exists.1 hsome
  refine get?_eq_some.2 ⟨?_, htype⟩
  rw [lookup_replaced, (get?_eq_some.1 hread).1, Option.map_some, if_pos rfl]

theorem get?_set?_of_ne (h : r.set? key v = some after) (hne : other.offset ≠ key.offset) :
    after.get? other = r.get? other := by
  obtain ⟨-, -, rfl⟩ := set?_eq_some.1 h
  rw [get?, get?, lookup_replaced]
  simp only [if_neg hne, Option.map_id']

theorem get?_blank {l : Layout V β} (hl : l.Tiled) {a : Attachment V} (ha : a ∈ l.attached) (kind : UInt32) :
    (l.blank kind).get? a.key = some a.part.value := by
  have hsorted : (l.blank kind).slots.Pairwise (·.1 < ·.1) := List.pairwise_map.2 hl.tiles.sorted
  exact get?_eq_some.2 ⟨(Slots.lookup_eq_some hsorted).2 (List.mem_map_of_mem ha), rfl⟩

end Record

inductive Call (V τ β : Type)
  | setLayout (kind : UInt32) (base : Part V)
  | attach (kind : UInt32) (requester : String) (part : Part V)
  | addHook (kind : UInt32) (hook : β)
  | create (kind : UInt32)
  | close
  | set (i : ℕ) (key : RecordKey τ) (v : V)
  | setBase (i : ℕ) (v : V)

def Call.kind? : Call V τ β → Option UInt32
  | setLayout kind _ | attach kind _ _ | addHook kind _ | create kind => some kind
  | close | set .. | setBase .. => none

namespace Ledger

variable (s : Ledger V τ β)

def perform : Call V τ β → Except Error (Ledger V τ β)
  | .setLayout kind base => (s.table.setLayout kind base).map fun table ↦ { s with table }
  | .attach kind requester part =>
    (s.table.attach kind requester part).map fun (key, table) ↦
      { s with table, issued := s.issued ++ [⟨kind, requester, key⟩] }
  | .addHook kind hook => (s.table.addHook kind hook).map fun table ↦ { s with table }
  | .create kind =>
    (s.table.create kind).map fun (r, _) ↦ { s with records := s.records ++ [(r, s.issued.length)] }
  | .close => .ok { s with table := s.table.close }
  | .set i key v => .ok { s with records := s.records.modify i fun p ↦ ((p.1.set? key v).getD p.1, p.2) }
  | .setBase i v => .ok { s with records := s.records.modify i fun p ↦ ((p.1.setBase? v).getD p.1, p.2) }

def next (c : Call V τ β) : Ledger V τ β := (s.perform c).toOption.getD s

def run (calls : List (Call V τ β)) (s : Ledger V τ β) : Ledger V τ β := calls.foldl next s

namespace Sound

variable {s : Ledger V τ β}

theorem perform (h : s.Sound) {c : Call V τ β} {after : Ledger V τ β} (hran : s.perform c = .ok after) :
    after.Sound := by
  cases c with
  | setLayout kind base =>
    obtain ⟨table, hset, rfl⟩ := Except.map_eq_ok.1 hran
    obtain ⟨hooks, hkind, hopen, hbare, rfl⟩ := RecordTable.exists_of_setLayout hset
    exact h.retable (.laidOut hkind hopen hbare) (RecordTable.attachedTo_laidOut hkind hbare _ _)
  | attach kind requester part =>
    obtain ⟨⟨key, table⟩, hattach, rfl⟩ := Except.map_eq_ok.1 hran
    obtain ⟨l, hat, hopen, hroom, rfl, rfl⟩ := RecordTable.exists_of_attach hattach
    exact h.issue hat hopen hroom
  | addHook kind hook =>
    obtain ⟨table, hadd, rfl⟩ := Except.map_eq_ok.1 hran
    obtain ⟨l, hat, rfl⟩ := RecordTable.exists_of_addHook hadd
    exact h.retable (.hooked hat) (RecordTable.attachedTo_hooked hat _)
  | create kind =>
    obtain ⟨⟨r, events⟩, hcreate, rfl⟩ := Except.map_eq_ok.1 hran
    obtain ⟨l, hat, rfl⟩ := RecordTable.exists_of_create hcreate
    exact h.make hat
  | close =>
    cases hran
    exact h.retable .closed fun _ ↦ rfl
  | set i key v =>
    cases hran
    refine h.rewrite i (f := fun r ↦ (r.set? key v).getD r) fun p hp ↦ ?_
    cases hset : p.1.set? key v with
    | none => exact ⟨rfl, rfl⟩
    | some after =>
      rw [Option.getD_some, Record.keys_set? (h.sorted_slots hp) hset]
      obtain ⟨-, -, rfl⟩ := Record.set?_eq_some.1 hset
      exact ⟨rfl, rfl⟩
  | setBase i v =>
    cases hran
    refine h.rewrite i (f := fun r ↦ (r.setBase? v).getD r) fun p hp ↦ ?_
    rw [Record.setBase?]
    split <;> exact ⟨rfl, rfl⟩

theorem next (h : s.Sound) (c : Call V τ β) : (s.next c).Sound := by
  cases hran : s.perform c with
  | error e =>
    rw [Ledger.next, hran]
    exact h
  | ok after =>
    rw [Ledger.next, hran]
    exact h.perform hran

theorem run (h : s.Sound) (calls : List (Call V τ β)) : (Ledger.run calls s).Sound := by
  induction calls generalizing s with
  | nil => exact h
  | cons c calls ih => exact ih (h.next c)

end Sound

theorem Sound.reads {s : Ledger V τ β} (h : s.Sound) {p : Record V × ℕ} (hp : p ∈ s.records) {j : ℕ} {a : Issue τ}
    (ha : s.issued[j]? = some a) (hkind : a.kind = p.1.kind) : (p.1.get? a.key).isSome ↔ j < p.2 := by
  rw [Record.isSome_get? (h.sorted_slots hp), h.carried p hp, List.mem_map]
  constructor
  · rintro ⟨b, hb, hkey⟩
    obtain ⟨hmem, hb'⟩ := List.mem_filter.1 hb
    obtain ⟨i, hi⟩ := List.mem_iff_getElem?.1 hmem
    rw [List.getElem?_take, Option.ite_none_right_eq_some] at hi
    have hsame : b.kind = a.kind := by
      rw [hkind]
      simpa using hb'
    have hij := h.issued_inj hi.2 ha hsame (by rw [hkey])
    omega
  · intro hj
    refine ⟨a, List.mem_filter.2 ⟨?_, by simpa using hkind⟩, rfl⟩
    exact List.mem_iff_getElem?.2 ⟨j, by rw [List.getElem?_take_of_lt hj, ha]⟩

omit [Typed V τ] [DecidableEq τ] in
theorem refusal_of_map {t : RecordTable V β} {kind : UInt32} {α γ : Type} {x : Except Error α} {f : α → γ} {e : Error}
    (hcases : (∃ a, x = .ok a) ∨ ∃ e, x = .error e ∧ t.Refusal kind e) (h : x.map f = .error e) :
    t.Refusal kind e := by
  rw [Except.map_eq_error] at h
  rcases hcases with ⟨a, hok⟩ | ⟨e', herror, hrefused⟩
  · rw [hok] at h
    cases h
  · rw [herror] at h
    cases h
    exact hrefused

/-- A call fails for a reason that is there, and nothing comes of it. -/
theorem refused {s : Ledger V τ β} {c : Call V τ β} {e : Error} (h : s.perform c = .error e) :
    s.next c = s ∧ ∃ kind, c.kind? = some kind ∧ s.table.Refusal kind e := by
  refine ⟨by rw [next, h]; rfl, ?_⟩
  cases c with
  | setLayout kind base =>
    refine ⟨kind, rfl, refusal_of_map ?_ h⟩
    exact (s.table.setLayout_cases kind base).imp_left fun ⟨_, _, _, _, hok⟩ ↦ ⟨_, hok⟩
  | attach kind requester part =>
    refine ⟨kind, rfl, refusal_of_map ?_ h⟩
    exact (s.table.attach_cases kind requester part).imp_left fun ⟨_, _, _, _, hok⟩ ↦ ⟨_, hok⟩
  | addHook kind hook =>
    refine ⟨kind, rfl, refusal_of_map ?_ h⟩
    exact (s.table.addHook_cases kind hook).imp_left fun ⟨_, _, hok⟩ ↦ ⟨_, hok⟩
  | create kind =>
    refine ⟨kind, rfl, refusal_of_map ?_ h⟩
    exact (s.table.create_cases kind).imp_left fun ⟨_, _, hok⟩ ↦ ⟨_, hok⟩
  | close | set | setBase => cases h

/-- What modules rely on. -/
structure LaidOut (s : Ledger V τ β) : Prop where
  tiles (kind : UInt32) (l : Layout V β) : s.table.layout? kind = some l → Tiles l.base.size l.attached l.size
  room (kind : UInt32) (l : Layout V β) : s.table.layout? kind = some l → l.attached.length ≤ attachmentCapacity
  requesters (kind : UInt32) (l : Layout V β) : s.table.layout? kind = some l →
    l.attached.map (fun a ↦ (a.module, a.key)) = (s.issuedFor kind).map fun i ↦ (i.requester, i.key)
  offset (kind : UInt32) (requester : String) (part : Part V) (key : RecordKey τ) (table : RecordTable V β) :
    s.table.attach kind requester part = .ok (key, table) →
      ∃ l, s.table.layout? kind = some l ∧ key = ⟨l.size, Typed.typeOf part.value⟩
  refused (c : Call V τ β) (e : Error) :
    s.perform c = .error e → s.next c = s ∧ ∃ kind, c.kind? = some kind ∧ s.table.Refusal kind e
  distinct (i j : ℕ) (a b : Issue τ) : s.issued[i]? = some a → s.issued[j]? = some b → a.kind = b.kind →
    a.key.offset = b.key.offset → i = j
  reads (p : Record V × ℕ) (j : ℕ) (a : Issue τ) : p ∈ s.records → s.issued[j]? = some a → a.kind = p.1.kind →
    ((p.1.get? a.key).isSome ↔ j < p.2)
  apart (p : Record V × ℕ) (a b : Issue τ) (v : V) (after : Record V) : p ∈ s.records → a ∈ s.issued → b ∈ s.issued →
    a.kind = p.1.kind → b.kind = p.1.kind → a.key ≠ b.key → p.1.set? a.key v = some after →
      after.get? a.key = some v ∧ after.get? b.key = p.1.get? b.key ∧ after.base = p.1.base
  found (p : Record V × ℕ) (key : RecordKey τ) (v : V) : p ∈ s.records →
    p.1.get? key = p.1.found? key ∧ p.1.set? key v = p.1.replace? key v

theorem Sound.laidOut {s : Ledger V τ β} (h : s.Sound) : s.LaidOut where
  tiles kind l hat := (h.tiled kind l hat).tiles
  room kind l hat := (h.tiled kind l hat).room
  requesters kind l hat := by
    rw [h.issued, RecordTable.attachedTo_of_some hat, List.map_map]
    rfl
  offset kind requester part key table hattached := by
    obtain ⟨l, hat, -, -, hkey, -⟩ := RecordTable.exists_of_attach hattached
    exact ⟨l, hat, hkey⟩
  refused _ _ := Ledger.refused
  distinct _ _ _ _ := h.issued_inj
  reads _ _ _ hp := h.reads hp
  apart p a b v after hp ha hb hkind hkind' hne hset := by
    obtain ⟨i, hi⟩ := List.mem_iff_getElem?.1 ha
    obtain ⟨j, hj⟩ := List.mem_iff_getElem?.1 hb
    have hoffset : b.key.offset ≠ a.key.offset := by
      intro heq
      obtain rfl := h.issued_inj hi hj (hkind.trans hkind'.symm) heq.symm
      rw [hi] at hj
      exact hne (congrArg Issue.key (Option.some.inj hj))
    refine ⟨Record.get?_set?_self hset, Record.get?_set?_of_ne hset hoffset, ?_⟩
    obtain ⟨-, -, rfl⟩ := Record.set?_eq_some.1 hset
    rfl
  found p key v hp := ⟨Record.get?_eq (h.sorted_slots hp) key, Record.set?_eq (h.sorted_slots hp) key v⟩

end Ledger

end GameHost
