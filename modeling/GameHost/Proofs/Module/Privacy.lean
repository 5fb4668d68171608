import GameHost.Proofs.Module.Attachments

namespace GameHost

variable {V τ β : Type} [Typed V τ]

def extents : List (Attachment V) → ℕ
  | [] => 0
  | a :: as => a.extent + extents as

theorem Tiles.offset_eq {start stop n : ℕ} {as : List (Attachment V)} {a : Attachment V} (h : Tiles start as stop)
    (ha : as[n]? = some a) : a.offset = start + extents (as.take n) := by
  induction as generalizing start n with
  | nil => cases ha
  | cons b as ih =>
    obtain ⟨hb, hrest⟩ := h
    cases n with
    | zero =>
      obtain rfl : b = a := Option.some.inj ha
      exact hb
    | succ n =>
      have hoffset := ih hrest ha
      simp only [List.take_succ_cons, extents]
      omega

namespace Ledger.Sound

variable {s : Ledger V τ β} (h : s.Sound)

include h

theorem offset_eq {kind : UInt32} {l : Layout V β} {n : ℕ} {a : Issue τ} (hat : s.table.layout? kind = some l)
    (ha : (s.issuedFor kind)[n]? = some a) : a.key.offset = l.base.size + extents (l.attached.take n) := by
  simp only [h.issued, RecordTable.attachedTo_of_some hat, List.getElem?_map, Option.map_eq_some_iff] at ha
  obtain ⟨b, hb, rfl⟩ := ha
  exact (h.tiled kind l hat).tiles.offset_eq hb

end Ledger.Sound

variable [DecidableEq τ]

/-- The record has a value for the key that can be read or replaced. -/
def Record.Opens (r : Record V) (key : RecordKey τ) : Prop := (r.get? key).isSome ∨ ∃ v, (r.set? key v).isSome

theorem Record.opens_iff {r : Record V} {key : RecordKey τ} : r.Opens key ↔ (r.get? key).isSome := by
  constructor
  · rintro (hread | ⟨v, hwritten⟩)
    · exact hread
    · obtain ⟨after, hset⟩ := Option.isSome_iff_exists.1 hwritten
      exact (Record.set?_eq_some.1 hset).1
  · exact .inl

namespace Ledger

theorem Sound.opens_iff {s : Ledger V τ β} (h : s.Sound) {p : Record V × ℕ} (hp : p ∈ s.records) (key : RecordKey τ) :
    p.1.Opens key ↔ ∃ a ∈ s.issued.take p.2, a.kind = p.1.kind ∧ a.key = key := by
  rw [Record.opens_iff, Record.isSome_get? (h.sorted_slots hp), h.carried p hp]
  simp [and_assoc]

/-- Records of the modules open to no key but those that were issued for their kind by the module that made them. -/
def Private (ms : List (Ledger V τ β)) : Prop :=
  ∀ (i j : ℕ) (s t : Ledger V τ β) (p : Record V × ℕ) (b : Issue τ), ms[i]? = some s → ms[j]? = some t →
    p ∈ s.records → b ∈ t.issued → p.1.Opens b.key → i = j ∧ b.kind = p.1.kind

/-- No key that was issued for something else is equal to one that a record carries. -/
def Apart (ms : List (Ledger V τ β)) : Prop :=
  ∀ (i j : ℕ) (s t : Ledger V τ β) (p : Record V × ℕ) (a b : Issue τ), ms[i]? = some s → ms[j]? = some t →
    p ∈ s.records → a ∈ s.issued.take p.2 → a.kind = p.1.kind → b ∈ t.issued → a.key = b.key →
      i = j ∧ b.kind = a.kind

theorem private_iff_of_sound {ms : List (Ledger V τ β)} (hms : ∀ s ∈ ms, s.Sound) : Private ms ↔ Apart ms := by
  constructor
  · intro hprivate i j s t p a b hs ht hp ha hkind hb hkey
    have hopens := ((hms s (List.mem_of_getElem? hs)).opens_iff hp b.key).2 ⟨a, ha, hkind, hkey⟩
    rw [hkind]
    exact hprivate i j s t p b hs ht hp hb hopens
  · intro hapart i j s t p b hs ht hp hb hopens
    obtain ⟨a, ha, hkind, hkey⟩ := ((hms s (List.mem_of_getElem? hs)).opens_iff hp b.key).1 hopens
    rw [← hkind]
    exact hapart i j s t p a b hs ht hp ha hkind hb hkey

def modules (histories : List (String × List (Call V τ β))) : List (Ledger V τ β) :=
  histories.map fun history ↦ run history.2 (start history.1)

theorem sound_modules {histories : List (String × List (Call V τ β))} {s : Ledger V τ β} (hs : s ∈ modules histories) :
    s.Sound := by
  obtain ⟨history, -, rfl⟩ := List.mem_map.1 hs
  exact (sound_start history.1).run history.2

end Ledger

/-- Attachments are private exactly as long as no two keys meet: a record opens to the keys that had been issued for its
kind when it was made and to their equals. Keys meet if they have one type and what comes before their attachments, the
base included, is of one size. -/
theorem private_iff_apart (histories : List (String × List (Call V τ β))) :
    (Ledger.Private (Ledger.modules histories) ↔ Ledger.Apart (Ledger.modules histories)) ∧
    ∀ s ∈ Ledger.modules histories,
      (∀ p ∈ s.records, ∀ key,
        p.1.Opens key ↔ ∃ a ∈ s.issued.take p.2, a.kind = p.1.kind ∧ a.key = key) ∧
      ∀ (kind : UInt32) (l : Layout V β) (n : ℕ) (a : Issue τ), s.table.layout? kind = some l →
        (s.issuedFor kind)[n]? = some a → a.key.offset = l.base.size + extents (l.attached.take n) := by
  refine ⟨Ledger.private_iff_of_sound fun s ↦ Ledger.sound_modules, fun s hs ↦ ⟨fun p hp key ↦ ?_, ?_⟩⟩
  · exact (Ledger.sound_modules hs).opens_iff hp key
  · intro kind l n a hat ha
    exact (Ledger.sound_modules hs).offset_eq hat ha

/-- Characters begin with a word of four bytes. The items of the same module begin with a truth value and three bytes,
and parties of another module with a word again, so that the first words attached to all three have one key. -/
def crowd : List (String × List (Call Value ValueType Unit)) :=
  [("character", [.setLayout 0 ⟨.int ⟨false, 4⟩ 0, none⟩, .attach 0 "buff" ⟨.int ⟨false, 4⟩ 1, none⟩,
      .setLayout 1 ⟨.truth true, none⟩, .attach 1 "flag" ⟨.bytes [0, 0, 0], none⟩,
      .attach 1 "mail" ⟨.int ⟨false, 4⟩ 9, none⟩, .create 1]),
    ("party", [.setLayout 0 ⟨.int ⟨false, 4⟩ 0, none⟩, .attach 0 "guild" ⟨.int ⟨false, 4⟩ 7, none⟩, .create 0])]

def buffs : RecordKey ValueType := ⟨4, .int ⟨false, 4⟩⟩

theorem private_iff_apart_crowd : ∃ s ∈ Ledger.modules crowd, ∃ p ∈ s.records, ∃ l a,
    s.table.layout? 1 = some l ∧ (s.issuedFor 1)[1]? = some a ∧
      a.key.offset = l.base.size + extents (l.attached.take 1) ∧ a.key = buffs ∧
      (p.1.Opens buffs ↔ ∃ b ∈ s.issued.take p.2, b.kind = p.1.kind ∧ b.key = buffs) := by
  obtain ⟨hopens, hoffset⟩ := (private_iff_apart crowd).2 _ (.head _)
  exact ⟨_, .head _, _, .head _, _, _, rfl, rfl, hoffset 1 _ 1 _ rfl rfl, rfl, hopens _ (.head _) buffs⟩

/-- The key of `buff` reads what `mail` has attached to items, and what `guild` has attached to parties. -/
theorem meeting_keys_open :
    (Ledger.modules crowd).map (fun s ↦ (s.issuedFor 0).map fun a ↦ (a.requester, a.key)) =
      [[("buff", buffs)], [("guild", buffs)]] ∧
    (Ledger.modules crowd).map (fun s ↦ s.records.map fun p ↦ (p.1.kind, p.1.get? buffs)) =
      [[(1, some (.int ⟨false, 4⟩ 9))], [(0, some (.int ⟨false, 4⟩ 7))]] ∧
    ¬ Ledger.Private (Ledger.modules crowd) := by
  refine ⟨by decide, by decide, fun hprivate ↦ ?_⟩
  have hkind := hprivate 0 0 _ _ _ ⟨0, "buff", buffs⟩ rfl rfl (.head _) (.head _) (Record.opens_iff.2 (by decide))
  exact absurd hkind.2 (by decide)

end GameHost
