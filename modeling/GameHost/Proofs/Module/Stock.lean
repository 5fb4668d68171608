import GameHost.Proofs.Module.Attachments

namespace GameHost

variable {V τ β : Type} [Typed V τ]

/-- The end of a record: each of its values is dropped by the part that it was made from, the base last. -/
def Record.drops (r : Record V) (base : Part V) (parts : List (Part V)) : List (PartEvent V) :=
  List.zipWith (fun part s ↦ .dropped part s.2) parts r.slots ++ [.dropped base r.base]

structure Holding (V : Type) where
  record : Record V
  made : List (PartEvent V)

namespace Holding

def new (kind : UInt32) (l : Layout V β) : Holding V :=
  ⟨l.blank kind, .made l.base :: l.attached.map fun a ↦ .made a.part⟩

/-- Destroying the record gives what undoes its making. -/
def EndsBy (h : Holding V) (outcome : Except Error Unit × List (PartEvent V)) : Prop :=
  ∃ base parts, h.made = .made base :: parts.map .made ∧ parts.length = h.record.slots.length ∧
    outcome = (.ok (), h.record.drops base parts)

structure Built (h : Holding V) (base : Part V) (front : List (Attachment V)) : Prop where
  made : h.made = .made base :: front.map fun a ↦ .made a.part
  keys : h.record.keys = front.map Attachment.key
  type : Typed.typeOf h.record.base = Typed.typeOf base.value
  tiles : ∃ stop, Tiles base.size front stop

namespace Built

variable {h : Holding V} {base : Part V} {front : List (Attachment V)}

theorem length_slots (hbuilt : h.Built base front) : h.record.slots.length = front.length := by
  simpa [Record.keys] using congrArg List.length hbuilt.keys

theorem sorted (hbuilt : h.Built base front) : h.record.slots.Pairwise (·.1 < ·.1) := by
  obtain ⟨stop, htiles⟩ := hbuilt.tiles
  have hkeys : h.record.keys.Pairwise fun a b ↦ a.offset < b.offset := by
    rw [hbuilt.keys, List.pairwise_map]
    exact htiles.sorted
  rwa [Record.keys, List.pairwise_map] at hkeys

theorem of_new (kind : UInt32) {l : Layout V β} (hl : l.Tiled) : (new kind l).Built l.base l.attached where
  made := rfl
  keys := by simp [new, Layout.blank, Record.keys, Attachment.key]
  type := rfl
  tiles := ⟨l.size, hl.tiles⟩

end Built
end Holding

theorem RecordTable.Altered.exists_layout {t after : RecordTable V β} (h : t.Altered after) {k : UInt32}
    {l : Layout V β} (hat : t.layout? k = some l) : ∃ l', after.layout? k = some l' ∧ l.attached <+: l'.attached := by
  have hgrown := h.attachedTo_prefix k
  rw [attachedTo_of_some hat] at hgrown
  have hsome : (after.layout? k).isSome := by
    cases h with
    | laidOut hkind =>
      rw [layout?_put hkind]
      split <;> simp [hat]
    | extended hat' | hooked hat' =>
      rw [layout?_put (lt_of_layout? hat')]
      split <;> simp [hat]
    | closed =>
      show (t.layout? k).isSome
      rw [hat]
      rfl
  obtain ⟨l', hat'⟩ := Option.isSome_iff_exists.1 hsome
  rw [attachedTo_of_some hat'] at hgrown
  exact ⟨l', hat', hgrown⟩

section

variable [DecidableEq τ]

theorem Part.drop_of_type {p : Part V} {v : V} (h : Typed.typeOf v = Typed.typeOf p.value) :
    p.drop v = [.dropped p v] := if_pos h

namespace RecordTable

theorem dropSlots_of_keys {front : List (Attachment V)} {slots : List (ℕ × V)} (rest : List (Attachment V))
    (hkeys : (slots.map fun s ↦ (⟨s.1, Typed.typeOf s.2⟩ : RecordKey τ)) = front.map Attachment.key) :
    dropSlots (front ++ rest) slots =
      (true, List.zipWith (fun part s ↦ .dropped part s.2) (front.map (·.part)) slots) := by
  induction front generalizing slots with
  | nil =>
    obtain rfl : slots = [] := by simpa using hkeys
    cases rest <;> rfl
  | cons a front ih =>
    cases slots with
    | nil => cases hkeys
    | cons s slots =>
      simp only [List.map_cons, List.cons.injEq, Attachment.key, RecordKey.mk.injEq] at hkeys
      obtain ⟨⟨hoffset, htype⟩, hrest⟩ := hkeys
      simp only [List.cons_append, dropSlots, if_pos hoffset.symm, ih hrest, Part.drop_of_type htype]
      rfl

variable {t : RecordTable V β} {h : Holding V} {l : Layout V β} {base : Part V} {front : List (Attachment V)}

/-- All attached values go if the record was built of the first attachments, and the base goes if the type that it is
declared with is that of the record's base. -/
theorem destroy_of_built (hbuilt : h.Built base front) (hat : t.layout? h.record.kind = some l)
    (hfront : front <+: l.attached) :
    t.destroy h.record = (.ok (), List.zipWith (fun part s ↦ .dropped part s.2) (front.map (·.part)) h.record.slots ++
      l.base.drop h.record.base) := by
  obtain ⟨rest, hrest⟩ := hfront
  have hroom : ¬ l.attached.length < h.record.slots.length := by
    rw [hbuilt.length_slots, ← hrest, List.length_append]
    omega
  have hdropped := dropSlots_of_keys rest hbuilt.keys
  rw [hrest] at hdropped
  simp only [destroy, layout_of_some hat, if_neg hroom, hdropped]

theorem endsBy_of_built (hbuilt : h.Built l.base front) (hat : t.layout? h.record.kind = some l)
    (hfront : front <+: l.attached) : h.EndsBy (t.destroy h.record) := by
  refine ⟨l.base, front.map (·.part), ?_, ?_, ?_⟩
  · rw [hbuilt.made, List.map_map]
    rfl
  · rw [List.length_map, hbuilt.length_slots]
  · rw [destroy_of_built hbuilt hat hfront, Part.drop_of_type hbuilt.type, Record.drops]

end RecordTable

end

inductive Deal (V τ β : Type)
  | call (c : Call V τ β)
  | destroy (n : ℕ)

/-- A record table, the bases that were declared, the latest first, the parts that were attached, and the records that
were made. A record that was destroyed leaves its place empty. -/
structure Stock (V β : Type) where
  table : RecordTable V β
  bases : List (UInt32 × Part V)
  parts : List (UInt32 × Part V)
  held : List (Option (Holding V))

namespace Stock

def start (owner : String) : Stock V β := ⟨.empty owner, [], [], []⟩

section

variable (s : Stock V β)

def baseOf (kind : UInt32) : Option (Part V) := s.bases.lookup kind

def partsOf (kind : UInt32) : List (Part V) := (s.parts.filter (·.1 = kind)).map (·.2)

def rewrite (n : ℕ) (f : Record V → Record V) : Stock V β :=
  { s with held := s.held.modify n (Option.map fun h ↦ { h with record := f h.record }) }

end

section

variable [DecidableEq τ] (s : Stock V β)

def perform : Call V τ β → Except Error (Stock V β)
  | .setLayout kind base =>
    (s.table.setLayout kind base).map fun table ↦ { s with table, bases := (kind, base) :: s.bases }
  | .attach kind requester part =>
    (s.table.attach kind requester part).map fun (_, table) ↦ { s with table, parts := s.parts ++ [(kind, part)] }
  | .addHook kind hook => (s.table.addHook kind hook).map fun table ↦ { s with table }
  | .create kind => (s.table.create kind).map fun (r, made) ↦ { s with held := s.held ++ [some ⟨r, made⟩] }
  | .close => .ok { s with table := s.table.close }
  | .set n key v => .ok (s.rewrite n fun r ↦ (r.set? key v).getD r)
  | .setBase n v => .ok (s.rewrite n fun r ↦ (r.setBase? v).getD r)

/-- What is there afterwards. A call may fail; a record that is given to be destroyed is gone either way. -/
def next : Deal V τ β → Stock V β
  | .call c => (s.perform c).toOption.getD s
  | .destroy n => { s with held := s.held.set n none }

def run (deals : List (Deal V τ β)) (s : Stock V β) : Stock V β := deals.foldl next s

end

/-- All that a deal can do. -/
inductive Turn (s : Stock V β) : Stock V β → Prop
  | idle : Turn s s
  | laidOut {kind : UInt32} {base : Part V} {hooks : List β} (hkind : kind.toNat < recordKinds)
      (hopen : s.table.closed = false) (hbare : ∀ l ∈ s.table.layout? kind, l.attached = []) :
      Turn s { s with table := s.table.put kind ⟨base, [], base.size, hooks⟩, bases := (kind, base) :: s.bases }
  | extended {kind : UInt32} {requester : String} {part : Part V} {l : Layout V β}
      (hat : s.table.layout? kind = some l) (hopen : s.table.closed = false)
      (hroom : l.attached.length < attachmentCapacity) :
      Turn s { s with table := s.table.put kind (l.attach requester part), parts := s.parts ++ [(kind, part)] }
  | hooked {kind : UInt32} {hook : β} {l : Layout V β} (hat : s.table.layout? kind = some l) :
      Turn s { s with table := s.table.put kind { l with hooks := l.hooks ++ [hook] } }
  | closed : Turn s { s with table := s.table.close }
  | made {kind : UInt32} {l : Layout V β} (hat : s.table.layout? kind = some l) :
      Turn s { s with held := s.held ++ [some (.new kind l)] }
  | rewritten {n : ℕ} {f : Record V → Record V} (hkind : ∀ r, (f r).kind = r.kind)
      (htype : ∀ r, Typed.typeOf (f r).base = Typed.typeOf r.base)
      (hkeys : ∀ r : Record V, r.slots.Pairwise (·.1 < ·.1) → (f r).keys = r.keys) : Turn s (s.rewrite n f)
  | destroyed {n : ℕ} : Turn s { s with held := s.held.set n none }

section

variable [DecidableEq τ] {s : Stock V β}

theorem turn_set (n : ℕ) (key : RecordKey τ) (v : V) : s.Turn (s.rewrite n fun r ↦ (r.set? key v).getD r) := by
  have hcases (r : Record V) : (r.set? key v).getD r = r ∨ r.set? key v = some ((r.set? key v).getD r) := by
    cases r.set? key v with
    | none => exact .inl rfl
    | some after => exact .inr rfl
  refine .rewritten (fun r ↦ ?_) (fun r ↦ ?_) fun r hsorted ↦ ?_
  · rcases hcases r with hsame | hset
    · rw [hsame]
    · rw [← (Record.set?_eq_some.1 hset).2.2]
  · rcases hcases r with hsame | hset
    · rw [hsame]
    · rw [← (Record.set?_eq_some.1 hset).2.2]
  · rcases hcases r with hsame | hset
    · rw [hsame]
    · exact Record.keys_set? hsorted hset

theorem turn_setBase (n : ℕ) (v : V) : s.Turn (s.rewrite n fun r ↦ (r.setBase? v).getD r) := by
  refine .rewritten (fun r ↦ ?_) (fun r ↦ ?_) fun r _ ↦ ?_ <;> rw [Record.setBase?]
  · split <;> rfl
  · split
    · next htype => exact htype.symm
    · rfl
  · split <;> rfl

theorem turn_perform {c : Call V τ β} {after : Stock V β} (hran : s.perform c = .ok after) : s.Turn after := by
  cases c with
  | setLayout kind base =>
    obtain ⟨table, hset, rfl⟩ := Except.map_eq_ok.1 hran
    obtain ⟨hooks, hkind, hopen, hbare, rfl⟩ := RecordTable.exists_of_setLayout hset
    exact .laidOut hkind hopen hbare
  | attach kind requester part =>
    obtain ⟨⟨key, table⟩, hattach, rfl⟩ := Except.map_eq_ok.1 hran
    obtain ⟨l, hat, hopen, hroom, -, rfl⟩ := RecordTable.exists_of_attach hattach
    exact .extended hat hopen hroom
  | addHook kind hook =>
    obtain ⟨table, hadd, rfl⟩ := Except.map_eq_ok.1 hran
    obtain ⟨l, hat, rfl⟩ := RecordTable.exists_of_addHook hadd
    exact .hooked hat
  | create kind =>
    rcases s.table.create_cases kind with ⟨l, hat, hcreate⟩ | ⟨e, hcreate, -⟩
    · rw [perform, hcreate] at hran
      cases hran
      exact .made hat
    · rw [perform, hcreate] at hran
      cases hran
  | close =>
    cases hran
    exact .closed
  | set n key v =>
    cases hran
    exact turn_set n key v
  | setBase n v =>
    cases hran
    exact turn_setBase n v

theorem turn_next (d : Deal V τ β) : s.Turn (s.next d) := by
  cases d with
  | destroy n => exact .destroyed
  | call c =>
    cases hran : s.perform c with
    | error e =>
      rw [next, hran]
      exact .idle
    | ok after =>
      rw [next, hran]
      exact turn_perform hran

theorem baseOf_next {kind : UInt32} {d : Deal V τ β} (hd : ∀ base, d ≠ .call (.setLayout kind base)) :
    (s.next d).baseOf kind = s.baseOf kind := by
  cases d with
  | destroy n => rfl
  | call c =>
    cases hran : s.perform c with
    | error e =>
      rw [next, hran]
      rfl
    | ok after =>
      rw [next, hran]
      show after.baseOf kind = s.baseOf kind
      cases c with
      | setLayout kind' base =>
        obtain ⟨table, -, rfl⟩ := Except.map_eq_ok.1 hran
        have hne : kind ≠ kind' := by
          intro heq
          exact hd base (by rw [heq])
        rw [baseOf, baseOf, List.lookup_cons, beq_eq_false_iff_ne.2 hne]
      | attach | addHook | create =>
        obtain ⟨_, -, rfl⟩ := Except.map_eq_ok.1 hran
        rfl
      | close | set | setBase =>
        cases hran
        rfl

end

/-- The table has the bases and the parts that were declared and attached, and each record is built of some base and of
the first attachments of its kind. -/
structure Sound (s : Stock V β) : Prop where
  tiled : s.table.Tiled
  based (kind : UInt32) : (s.table.layout? kind).map (·.base) = s.baseOf kind
  parted (kind : UInt32) : (s.table.attachedTo kind).map (·.part) = s.partsOf kind
  built (h : Holding V) : some h ∈ s.held →
    ∃ base front l, h.Built base front ∧ s.table.layout? h.record.kind = some l ∧ front <+: l.attached

theorem sound_start (owner : String) : (start owner : Stock V β).Sound where
  tiled := RecordTable.tiled_empty owner
  based kind := by
    rw [start, RecordTable.layout?_empty]
    rfl
  parted kind := by
    rw [start, RecordTable.attachedTo, RecordTable.layout?_empty]
    rfl
  built h hh := by cases hh

namespace Sound

variable {s after : Stock V β}

theorem retable (hs : s.Sound) {table : RecordTable V β} {bases parts : List (UInt32 × Part V)}
    (haltered : s.table.Altered table)
    (hbased : ∀ kind, (table.layout? kind).map (·.base) = bases.lookup kind)
    (hparted : ∀ kind, (table.attachedTo kind).map (·.part) = (parts.filter (·.1 = kind)).map (·.2)) :
    Sound ⟨table, bases, parts, s.held⟩ := by
  refine ⟨hs.tiled.altered haltered, hbased, hparted, fun h hh ↦ ?_⟩
  obtain ⟨base, front, l, hbuilt, hat, hfront⟩ := hs.built h hh
  obtain ⟨l', hat', hgrown⟩ := haltered.exists_layout hat
  exact ⟨base, front, l', hbuilt, hat', hfront.trans hgrown⟩

theorem made (hs : s.Sound) {kind : UInt32} {l : Layout V β} (hat : s.table.layout? kind = some l) :
    Sound { s with held := s.held ++ [some (.new kind l)] } := by
  refine ⟨hs.tiled, hs.based, hs.parted, fun h hh ↦ ?_⟩
  rcases List.mem_append.1 hh with hh | hh
  · exact hs.built h hh
  · obtain rfl := Option.some.inj (List.mem_singleton.1 hh)
    exact ⟨l.base, l.attached, l, .of_new kind (hs.tiled kind l hat), hat, List.prefix_rfl⟩

theorem rewritten (hs : s.Sound) {n : ℕ} {f : Record V → Record V} (hkind : ∀ r, (f r).kind = r.kind)
    (htype : ∀ r, Typed.typeOf (f r).base = Typed.typeOf r.base)
    (hkeys : ∀ r : Record V, r.slots.Pairwise (·.1 < ·.1) → (f r).keys = r.keys) : (s.rewrite n f).Sound := by
  refine ⟨hs.tiled, hs.based, hs.parted, fun h hh ↦ ?_⟩
  obtain ⟨j, hj⟩ := List.mem_iff_getElem?.1 hh
  rw [rewrite, List.getElem?_modify, Option.map_eq_map, Option.map_eq_some_iff] at hj
  obtain ⟨place, hplace, heq⟩ := hj
  split at heq
  · obtain ⟨h, rfl, rfl⟩ := Option.map_eq_some_iff.1 heq
    obtain ⟨base, front, l, hbuilt, hat, hfront⟩ := hs.built h (List.mem_of_getElem? hplace)
    refine ⟨base, front, l, ⟨hbuilt.made, ?_, ?_, hbuilt.tiles⟩, ?_, hfront⟩
    · rw [hkeys h.record hbuilt.sorted, hbuilt.keys]
    · rw [htype, hbuilt.type]
    · rw [hkind]
      exact hat
  · cases heq
    exact hs.built h (List.mem_of_getElem? hplace)

theorem turn (hs : s.Sound) (hturn : s.Turn after) : after.Sound := by
  cases hturn with
  | idle => exact hs
  | @laidOut kind base hooks hkind hopen hbare =>
    refine hs.retable (.laidOut hkind hopen hbare) (fun k ↦ ?_) fun k ↦ ?_
    · rw [RecordTable.layout?_put hkind, List.lookup_cons]
      by_cases hk : k = kind
      · simp [hk]
      · rw [if_neg hk, beq_eq_false_iff_ne.2 hk]
        exact hs.based k
    · rw [RecordTable.attachedTo_laidOut hkind hbare]
      exact hs.parted k
  | @extended kind requester part l hat hopen hroom =>
    have hkind := RecordTable.lt_of_layout? hat
    refine hs.retable (.extended hat hopen hroom) (fun k ↦ ?_) fun k ↦ ?_
    · rw [← baseOf, ← hs.based, RecordTable.layout?_put hkind]
      by_cases hk : k = kind
      · rw [if_pos hk, hk, hat]
        rfl
      · rw [if_neg hk]
    · rw [List.filter_append, List.map_append, ← partsOf, ← hs.parted, RecordTable.attachedTo_put hkind]
      by_cases hk : k = kind
      · rw [if_pos hk, hk, RecordTable.attachedTo_of_some hat]
        simp [Layout.attach]
      · rw [if_neg hk]
        simp [Ne.symm hk]
  | @hooked kind hook l hat =>
    refine hs.retable (.hooked hat) (fun k ↦ ?_) fun k ↦ ?_
    · rw [← baseOf, ← hs.based, RecordTable.layout?_put (RecordTable.lt_of_layout? hat)]
      by_cases hk : k = kind
      · rw [if_pos hk, hk, hat]
        rfl
      · rw [if_neg hk]
    · rw [RecordTable.attachedTo_hooked hat]
      exact hs.parted k
  | closed => exact hs.retable .closed hs.based hs.parted
  | made hat => exact hs.made hat
  | rewritten hkind htype hkeys => exact hs.rewritten hkind htype hkeys
  | destroyed =>
    refine ⟨hs.tiled, hs.based, hs.parted, fun h hh ↦ hs.built h ?_⟩
    rcases List.mem_or_eq_of_mem_set hh with hh | hh
    · exact hh
    · cases hh

theorem run [DecidableEq τ] (hs : s.Sound) (deals : List (Deal V τ β)) : (Stock.run deals s).Sound := by
  induction deals generalizing s with
  | nil => exact hs
  | cons d deals ih => exact ih (hs.turn (turn_next d))

end Sound

/-- The records of the kind from a place on were made with the base that is declared now. -/
def Settled (s : Stock V β) (kind : UInt32) (first : ℕ) : Prop :=
  ∀ n h, first ≤ n → s.held[n]? = some (some h) → h.record.kind = kind → h.made.head? = (s.baseOf kind).map .made

theorem settled_length (s : Stock V β) (kind : UInt32) : s.Settled kind s.held.length := by
  intro n h hn hat
  rw [List.getElem?_eq_none hn] at hat
  cases hat

namespace Settled

variable {s after : Stock V β} {kind : UInt32} {first : ℕ}

theorem turn (hsettled : s.Settled kind first) (hs : s.Sound) (hturn : s.Turn after)
    (hbase : after.baseOf kind = s.baseOf kind) : after.Settled kind first := by
  intro n h hn hat hkind
  rw [hbase]
  cases hturn with
  | idle | laidOut | extended | hooked | closed => exact hsettled n h hn hat hkind
  | @made kind' l hlayout =>
    rw [List.getElem?_append] at hat
    split at hat
    · exact hsettled n h hn hat hkind
    · obtain rfl := Option.some.inj (List.mem_singleton.1 (List.mem_of_getElem? hat))
      obtain rfl : kind' = kind := hkind
      rw [← hs.based, hlayout]
      rfl
  | @rewritten m f hkind' =>
    rw [rewrite, List.getElem?_modify, Option.map_eq_map, Option.map_eq_some_iff] at hat
    obtain ⟨place, hplace, heq⟩ := hat
    split at heq
    · obtain ⟨h, rfl, rfl⟩ := Option.map_eq_some_iff.1 heq
      exact hsettled n h hn hplace ((hkind' h.record).symm.trans hkind)
    · cases heq
      exact hsettled n h hn hplace hkind
  | @destroyed m =>
    rw [List.getElem?_set] at hat
    split at hat
    · split at hat <;> cases hat
    · exact hsettled n h hn hat hkind

theorem run [DecidableEq τ] (hsettled : s.Settled kind first) (hs : s.Sound) {deals : List (Deal V τ β)}
    (hdeals : ∀ d ∈ deals, ∀ base, d ≠ .call (.setLayout kind base)) : (Stock.run deals s).Settled kind first := by
  induction deals generalizing s with
  | nil => exact hsettled
  | cons d deals ih =>
    rw [List.forall_mem_cons] at hdeals
    exact ih (hsettled.turn hs (turn_next d) (baseOf_next hdeals.1)) (hs.turn (turn_next d)) hdeals.2

end Settled
end Stock

variable [DecidableEq τ]

/-- Making a record makes the base and then all that is attached at that moment, in the order in which it was attached.
Destroying it, whenever that is done and whatever was attached in between, drops just those parts in that order, with
the values that the record has of them, and then the base. -/
theorem destroyed_in_lockstep (owner : String) (kind : UInt32) (history deals : List (Deal V τ β))
    (hlast : ∀ d ∈ deals, ∀ base, d ≠ .call (.setLayout kind base)) :
    let before := Stock.run history (.start owner)
    let s := Stock.run deals before
    (∀ base, s.baseOf kind = some base → ∃ r, s.table.create kind = .ok (r, .made base :: (s.partsOf kind).map .made) ∧
      r.kind = kind ∧ r.base = base.value ∧ r.slots.map (·.2) = (s.partsOf kind).map (·.value)) ∧
    (s.baseOf kind = none → ∃ e, s.table.create kind = .error e) ∧
    ∀ n h, before.held.length ≤ n → s.held[n]? = some (some h) → h.record.kind = kind →
      h.EndsBy (s.table.destroy h.record) := by
  intro before s
  have hbefore : before.Sound := (Stock.sound_start owner).run history
  have hs : s.Sound := hbefore.run deals
  have hsettled : s.Settled kind before.held.length := (before.settled_length kind).run hbefore hlast
  refine ⟨fun base hbase ↦ ?_, fun hnone ↦ ?_, fun n h hn hat hkind ↦ ?_⟩
  · obtain ⟨l, hlayout, rfl⟩ := Option.map_eq_some_iff.1 ((hs.based kind).trans hbase)
    refine ⟨l.blank kind, ?_, rfl, rfl, ?_⟩
    · rw [RecordTable.create_of_some hlayout, ← hs.parted, RecordTable.attachedTo_of_some hlayout, List.map_map]
      rfl
    · rw [← hs.parted, RecordTable.attachedTo_of_some hlayout, Layout.blank, List.map_map, List.map_map]
      rfl
  · have hlayout : s.table.layout? kind = none := Option.map_eq_none_iff.1 ((hs.based kind).trans hnone)
    rcases s.table.create_cases kind with ⟨l, hat, -⟩ | ⟨e, hcreate, -⟩
    · rw [hlayout] at hat
      cases hat
    · exact ⟨e, hcreate⟩
  · obtain ⟨base, front, l, hbuilt, hlayout, hfront⟩ := hs.built h (List.mem_of_getElem? hat)
    have hbase := hsettled n h hn hat hkind
    rw [hbuilt.made, ← hkind, ← hs.based, hlayout] at hbase
    obtain rfl : base = l.base := PartEvent.made.inj (Option.some.inj hbase)
    exact RecordTable.endsBy_of_built hbuilt hlayout hfront

theorem destroyed_in_lockstep_grown :
    let history : List (Deal Value ValueType Unit) :=
      [.call (.setLayout 0 ⟨.unit, some "old"⟩), .call (.create 0), .call (.setLayout 0 ⟨.truth true, some "base"⟩)]
    let deals : List (Deal Value ValueType Unit) :=
      [.call (.attach 0 "mail" ⟨.text "none", some "mail"⟩), .call (.create 0),
        .call (.attach 0 "buff" ⟨.unit, some "buff"⟩), .call (.set 1 ⟨1, .text⟩ (.text "one")), .call .close,
        .destroy 0]
    let s := Stock.run deals (Stock.run history (.start "character"))
    (∀ d ∈ deals, ∀ base, d ≠ .call (.setLayout 0 base)) ∧
    (∃ r, s.table.create 0 =
      .ok (r, [.made ⟨.truth true, some "base"⟩, .made ⟨.text "none", some "mail"⟩, .made ⟨.unit, some "buff"⟩])) ∧
    ∃ h, s.held = [none, some h] ∧ h.EndsBy (s.table.destroy h.record) ∧
      s.table.destroy h.record = (.ok (),
        [.dropped ⟨.text "none", some "mail"⟩ (.text "one"), .dropped ⟨.truth true, some "base"⟩ (.truth true)]) := by
  intro history deals s
  have hlast : ∀ d ∈ deals, ∀ base, d ≠ .call (.setLayout 0 base) := by simp [deals]
  obtain ⟨hmade, -, hends⟩ := destroyed_in_lockstep "character" 0 history deals hlast
  obtain ⟨r, hcreate, -⟩ := hmade ⟨.truth true, some "base"⟩ (by decide)
  exact ⟨hlast, ⟨r, hcreate⟩, _, rfl, hends 1 _ (by decide) rfl rfl, rfl⟩

end GameHost
