import GameHost.Proofs.Wire.RoundTrip

namespace GameHost

def FieldValue.elements : FieldValue → List Bytes
  | packet bs => [bs]
  | packets elements => elements
  | _ => []

def Message.elements (m : Message) (i : Nat) : List Bytes :=
  (m.values[i]?.join).elim [] FieldValue.elements

def View.elements (d : View) (i : Nat) : List Bytes := (d.packet i).toList ++ (d.packets i).toList

/-- A message and, for each of its fields, the messages one level further down. -/
inductive Tree
  | node (message : Message) (below : Fin message.schema.size → List Tree)

namespace Tree

def message : Tree → Message
  | node m _ => m

/-- Every field holds the nested forms of the messages below it, all the way down. -/
inductive Composed : Tree → Prop
  | node {m : Message} {below : Fin m.schema.size → List Tree}
      (filled : ∀ i : Fin m.schema.size, (m.elements i).map .ok = (below i).map (·.message.nestedBytes))
      (deeper : ∀ i, ∀ t ∈ below i, t.Composed) : Composed (.node m below)

mutual

/-- The view carries the root and hands out the messages below it, in their order, to be opened. -/
inductive Recovered : Tree → View → Prop
  | node {m : Message} {below : Fin m.schema.size → List Tree} {d : View} (own : d.Carries m)
      (deeper : ∀ i : Fin m.schema.size, List.Forall₂ Opened (below i) (d.elements i)) :
      Recovered (.node m below) d

/-- The bytes decode with the schema of the root, and the view recovers the tree. -/
inductive Opened : Tree → Bytes → Prop
  | decoded {t : Tree} {bytes : Bytes} {d : View}
      (decodes : t.message.schema.decodeNested bytes = .ok d) (recovered : Recovered t d) :
      Opened t bytes

end

end Tree

theorem FieldValue.elements_reading (spec : FieldSpec) (v : FieldValue) :
    (v.reading spec).packet.toList ++ (v.reading spec).packets = v.elements := by
  cases v with
  | packet bs =>
    rw [reading]
    split <;> rfl
  | packets elements => cases elements <;> rfl
  | _ => rfl

theorem View.Carries.elements {d : View} {m : Message} (h : d.Carries m) (i : Fin m.schema.size) :
    d.elements i = m.elements i := by
  obtain ⟨spec, hspec⟩ : ∃ spec, m.schema.fields[i.val]? = some spec :=
    ⟨_, List.getElem?_eq_getElem i.isLt⟩
  have hd : d.elements i = (d.reading i).packet.toList ++ (d.reading i).packets := rfl
  rw [hd, h.reading, Message.reading, Message.elements, hspec]
  cases m.values[i.val]? with
  | none => rfl
  | some v =>
    cases v with
    | none => rfl
    | some v => exact FieldValue.elements_reading _ v

namespace Message

variable {m : Message}

theorem decodeNested_of_nestedBytes {bytes : Bytes} (h : m.nestedBytes = .ok bytes) :
    ∃ d, m.schema.decodeNested bytes = .ok d ∧ d.Carries m := by
  unfold nestedBytes at h
  obtain ⟨size, -, h⟩ := Except.bind_eq_ok.mp h
  cases he : m.encodeNested (List.replicate size 0) with
  | mk written out =>
    simp only [he] at h
    obtain ⟨n, hn, htake⟩ := Except.bind_eq_ok.mp h
    rw [hn] at he
    obtain ⟨d, hd, -, hcarries⟩ := decodeNested_of_encodeNested he []
    rw [List.append_nil, Except.pure_eq_ok.mp htake] at hd
    exact ⟨d, hd, hcarries⟩

end Message

namespace Tree

/-- If every message below opens and a view carries the root, the view recovers the tree. -/
theorem recovered_of_carries {m : Message} {below : Fin m.schema.size → List Tree} {d : View}
    (own : d.Carries m)
    (filled : ∀ i : Fin m.schema.size, (m.elements i).map .ok = (below i).map (·.message.nestedBytes))
    (opened : ∀ i, ∀ t ∈ below i, ∀ bytes, t.message.nestedBytes = .ok bytes → t.Opened bytes) :
    Recovered (.node m below) d := by
  refine .node own fun i ↦ ?_
  have hbytes : List.Forall₂ (fun t bytes ↦ t.message.nestedBytes = .ok bytes) (below i)
      (m.elements i) := by
    have hsame : List.Forall₂ (· = ·) ((below i).map (·.message.nestedBytes))
        ((m.elements i).map .ok) := by
      rw [filled i]
      exact List.forall₂_same.mpr fun _ _ ↦ rfl
    exact List.forall₂_map_right_iff.mp (List.forall₂_map_left_iff.mp hsame)
  have hboth := (List.forall₂_and_left _ _).mpr ⟨opened i, hbytes⟩
  rw [own.elements]
  exact hboth.imp fun t bytes h ↦ h.1 bytes h.2

theorem Composed.opened {t : Tree} (h : t.Composed) {bytes : Bytes}
    (hb : t.message.nestedBytes = .ok bytes) : t.Opened bytes := by
  induction h generalizing bytes with
  | node filled deeper ih =>
    obtain ⟨d, hd, hcarries⟩ := Message.decodeNested_of_nestedBytes hb
    exact .decoded hd (recovered_of_carries hcarries filled fun i t ht _ ↦ ih i t ht)

end Tree

/-- Whoever decodes the root of a tree of messages and opens all packets on the way down gets back
every message of the tree, in its place. -/
theorem recovered_of_composed {t : Tree} (h : t.Composed) (buf rest : Bytes) :
    (∀ (header : Header) (n : Nat) (out : Bytes), t.message.encodeTop header buf = (.ok n, out) →
      ∃ d, t.message.schema.decodeTop (out.take n ++ rest) = .ok d ∧ d.header = some header ∧
        t.Recovered d) ∧
    (∀ (n : Nat) (out : Bytes), t.message.encodeNested buf = (.ok n, out) →
      ∃ d, t.message.schema.decodeNested (out.take n ++ rest) = .ok d ∧ t.Recovered d) := by
  cases h with
  | @node m below filled deeper =>
    have opened (i) (t) (ht : t ∈ below i) (bytes) (hb : t.message.nestedBytes = .ok bytes) :
        t.Opened bytes := (deeper i t ht).opened hb
    constructor
    · intro header n out he
      obtain ⟨d, hd, hheader, hcarries⟩ := Message.decodeTop_of_encodeTop he rest
      exact ⟨d, hd, hheader, Tree.recovered_of_carries hcarries filled opened⟩
    · intro n out he
      obtain ⟨d, hd, -, hcarries⟩ := Message.decodeNested_of_encodeNested he rest
      exact ⟨d, hd, Tree.recovered_of_carries hcarries filled opened⟩

namespace Tree

def sampleLeaf : Tree :=
  .node ((Message.ofSchema ⟨.one, [⟨.uint8, 1⟩], by decide, by decide⟩).set 0 (.scalar (7 : UInt8)))
    fun _ ↦ []

def sampleBranch : Tree :=
  .node ((Message.ofSchema ⟨.one, [⟨.packet, 1⟩], by decide, by decide⟩).set 0
    (.packet [2, 0, 1, 7])) fun _ ↦ [sampleLeaf]

/-- An array of a message that holds a message, and of a message that holds a number. -/
def sample : Tree :=
  .node ((Message.ofSchema ⟨.one, [⟨.packet, 3⟩], by decide, by decide⟩).set 0
    (.packets [[5, 0, 1, 2, 0, 1, 7], [2, 0, 1, 7]])) fun _ ↦ [sampleBranch, sampleLeaf]

theorem composed_sampleLeaf : sampleLeaf.Composed :=
  .node (by decide) fun _ _ ht ↦ absurd ht List.not_mem_nil

theorem composed_sample : sample.Composed := by
  have hbranch : sampleBranch.Composed := by
    refine .node (by decide) fun _ t ht ↦ ?_
    rw [List.mem_singleton.mp ht]
    exact composed_sampleLeaf
  refine .node (by decide) fun _ t ht ↦ ?_
  rcases List.mem_cons.mp ht with rfl | ht
  · exact hbranch
  · rw [List.mem_singleton.mp ht]
    exact composed_sampleLeaf

end Tree

theorem recovered_of_composed_sample : Tree.sample.Composed ∧
    (Tree.sample.message.encodeTop .blank (List.replicate 27 0) = (.ok 27,
      [0xD6, 27, 0, 0, 0, 0, 0, 0, 0, 0, 0, 0, 0, 1, 2, 5, 0, 1, 2, 0, 1, 7, 2, 0, 1, 7, 0x6B]) ∧
    ∃ d, Tree.sample.message.schema.decodeTop ([0xD6, 27, 0, 0, 0, 0, 0, 0, 0, 0, 0, 0, 0, 1, 2,
      5, 0, 1, 2, 0, 1, 7, 2, 0, 1, 7, 0x6B] ++ []) = .ok d ∧ d.header = some .blank ∧
      Tree.sample.Recovered d) ∧
    (Tree.sample.message.encodeNested (List.replicate 15 0) = (.ok 15,
      [13, 0, 1, 2, 5, 0, 1, 2, 0, 1, 7, 2, 0, 1, 7]) ∧
    ∃ d, Tree.sample.message.schema.decodeNested ([13, 0, 1, 2, 5, 0, 1, 2, 0, 1, 7, 2, 0, 1, 7] ++
      []) = .ok d ∧ Tree.sample.Recovered d) := by
  have htop : Tree.sample.message.encodeTop .blank (List.replicate 27 0) = (.ok 27,
      [0xD6, 27, 0, 0, 0, 0, 0, 0, 0, 0, 0, 0, 0, 1, 2, 5, 0, 1, 2, 0, 1, 7, 2, 0, 1, 7, 0x6B]) := by
    decide
  have hnested : Tree.sample.message.encodeNested (List.replicate 15 0) = (.ok 15,
      [13, 0, 1, 2, 5, 0, 1, 2, 0, 1, 7, 2, 0, 1, 7]) := by
    decide
  have hcomposed := Tree.composed_sample
  exact ⟨hcomposed, ⟨htop, (recovered_of_composed hcomposed _ []).1 _ _ _ htop⟩,
    hnested, (recovered_of_composed hcomposed _ []).2 _ _ hnested⟩

end GameHost
