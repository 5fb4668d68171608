import GameHost.Proofs.Buffer.Lending

namespace GameHost

namespace Message

namespace Atomic

variable {m : Message} {front back limit n : ℕ} {size : Except Error ℕ} {encode : Bytes → Except Error ℕ × Bytes}
  {checked : Bytes → Option (Except Error ℕ × Bytes)} {buf out : Bytes} {b : PoolBuffer}

theorem afterEncoding_of_le (h : m.Atomic front back limit size encode checked) (he : encode buf = (.ok n, out))
    (hroom : n ≤ b.capacity) : (b.afterEncoding (encode b.storage)).1 = .ok () ∧
      (b.afterEncoding (encode b.storage)).2.contents = out.take n := by
  rcases h.written_or_kept buf with ⟨bs, hbs, hwritten⟩ | ⟨e, hkept⟩
  · obtain ⟨hn, hout⟩ := Prod.mk.inj ((hwritten buf hbs).symm.trans he)
    obtain rfl := Except.ok.inj hn
    rw [hwritten b.storage hroom, ← hout, List.take_left]
    exact ⟨rfl, List.take_left⟩
  · rw [hkept buf rfl] at he
    cases he

theorem afterEncoding_of_lt (h : m.Atomic front back limit size encode checked) (he : encode buf = (.ok n, out))
    (hsmall : b.capacity < n) : b.afterEncoding (encode b.storage) = (.error (.bufferTooSmall n b.capacity), b) := by
  obtain ⟨hsize, hlimit, -⟩ := (h.succeeds buf n).mp (congrArg Prod.fst he)
  have hfails := (h.fails b.storage _).mpr (.bufferTooSmall hsize hlimit hsmall)
  have hencode : encode b.storage = (.error (.bufferTooSmall n b.capacity), b.storage) :=
    Prod.ext hfails (h.kept b.storage _ hfails)
  rw [hencode]
  rfl

end Atomic

def ofBlock (bs : Bytes) : Message :=
  (ofSchema ⟨.one, [⟨.memoryBlock, 1⟩], by decide, by decide⟩).set 0 (.block bs)

theorem nestedLen_ofBlock {bs : Bytes} (h : bs.length ≤ maxPacketSize) :
    (ofBlock bs).nestedLen = .ok (bs.length + 5) := by
  have hmeasured : Measured (⟨.memoryBlock, 1⟩, some (.block bs)) (some (lengthWidth + bs.length)) :=
    FieldValue.sizeIn_block.mpr ⟨rfl, h, rfl⟩
  refine ((atomic_encodeNested _).sized _).mpr ⟨rfl, [_], .cons hmeasured .nil, ?_⟩
  change bs.length + 5 = 3 + (2 + bs.length + 0) + 0
  omega

/-- As much in a block as leaves the length of the nested message just in range. -/
def longest : Message := ofBlock (List.replicate 65532 0)

theorem encodeNested_longest : ∃ out, longest.encodeNested (List.replicate 65537 0) = (.ok 65537, out) := by
  have hblock : (List.replicate 65532 (0 : UInt8)).length = 65532 := List.length_replicate
  have hlen : longest.nestedLen = .ok 65537 := by
    rw [longest, nestedLen_ofBlock (by rw [hblock]; decide), hblock]
  have hroom : 65537 ≤ (List.replicate 65537 (0 : UInt8)).length := Nat.le_of_eq List.length_replicate.symm
  have hok := (longest.atomic_encodeNested.succeeds (List.replicate 65537 0) 65537).mpr ⟨hlen, by decide, hroom⟩
  rcases hencode : longest.encodeNested (List.replicate 65537 0) with ⟨outcome, out⟩
  rw [hencode] at hok
  exact ⟨out, congrArg (·, out) hok⟩

end Message

/-- Whatever a pool of the default capacity was used for, a buffer that it hands out takes every message that has a
top-level form, and every message that has a nested form but the longest, with the bytes that any buffer gets. -/
theorem default_holds_all_but_longest (count : ℕ) (acts : List Lending.Act) :
    let l := (Lending.start (.ofCount count Pool.defaultCapacity)).run acts
    ∀ t ∈ l.handles, ∀ (m : Message) (h : Header) (buf : Bytes) (n : ℕ) (out : Bytes),
      (m.encodeTop h buf = (.ok n, out) → ((l.next t).encodeTop m h).1 = .ok () ∧
        ((l.next t).encodeTop m h).2.contents = out.take n) ∧
      (m.encodeNested buf = (.ok n, out) →
        if n = lengthWidth + maxPacketSize then
          (l.next t).encodeNested m = (.error (.bufferTooSmall n Pool.defaultCapacity), l.next t)
        else ((l.next t).encodeNested m).1 = .ok () ∧ ((l.next t).encodeNested m).2.contents = out.take n) := by
  intro l t ht m h buf n out
  have hcapacity : (l.next t).capacity = maxPacketSize + 1 :=
    (((Lending.Sound.start count Pool.defaultCapacity).run acts).next ht).1
  constructor
  · intro he
    have hlimit := ((m.atomic_encodeTop h).succeeds buf n).mp (congrArg Prod.fst he) |>.2.1
    exact (m.atomic_encodeTop h).afterEncoding_of_le he (by omega)
  · intro he
    have hlimit := (m.atomic_encodeNested.succeeds buf n).mp (congrArg Prod.fst he) |>.2.1
    have hwidth : lengthWidth = 2 := rfl
    split
    · next hlongest =>
      have hrefused := m.atomic_encodeNested.afterEncoding_of_lt he (b := l.next t) (by omega)
      rwa [hcapacity] at hrefused
    · next hshorter => exact m.atomic_encodeNested.afterEncoding_of_le he (by omega)

theorem default_holds_all_but_longest_both :
    let l := (Lending.start (.ofCount 1 Pool.defaultCapacity)).run [.acquire 0, .clone 0, .close 0]
    let b := l.next ⟨Pool.defaultCapacity, 1⟩
    ⟨Pool.defaultCapacity, 1⟩ ∈ l.handles ∧
    (Message.sample.encodeTop .blank (List.replicate 20 0xEE) = (.ok 20,
      [0xD6, 20, 0, 0, 0, 0, 0, 0, 0, 0, 0, 0, 0, 5, 2, 1, 1, 0, 0, 0x6B]) ∧
    (b.encodeTop .sample .blank).1 = .ok () ∧ (b.encodeTop .sample .blank).2.contents =
      [0xD6, 20, 0, 0, 0, 0, 0, 0, 0, 0, 0, 0, 0, 5, 2, 1, 1, 0, 0, 0x6B]) ∧
    (Message.sample.encodeNested (List.replicate 8 0xEE) = (.ok 8, [6, 0, 5, 2, 1, 1, 0, 0]) ∧
    (b.encodeNested .sample).1 = .ok () ∧ (b.encodeNested .sample).2.contents = [6, 0, 5, 2, 1, 1, 0, 0]) ∧
    (∃ out, Message.longest.encodeNested (List.replicate 65537 0) = (.ok 65537, out)) ∧
    b.encodeNested .longest = (.error (.bufferTooSmall 65537 Pool.defaultCapacity), b) := by
  intro l b
  have ht : ⟨Pool.defaultCapacity, 1⟩ ∈ l.handles := List.mem_singleton.mpr rfl
  have htop : Message.sample.encodeTop .blank (List.replicate 20 0xEE) = (.ok 20,
      [0xD6, 20, 0, 0, 0, 0, 0, 0, 0, 0, 0, 0, 0, 5, 2, 1, 1, 0, 0, 0x6B]) := by
    decide
  have hnested : Message.sample.encodeNested (List.replicate 8 0xEE) = (.ok 8, [6, 0, 5, 2, 1, 1, 0, 0]) := by
    decide
  have hsize : 65537 = lengthWidth + maxPacketSize := by decide
  obtain ⟨out, hlongest⟩ := Message.encodeNested_longest
  have htaken := (default_holds_all_but_longest 1 _ _ ht .sample .blank _ _ _).1 htop
  have htaken' := (default_holds_all_but_longest 1 _ _ ht .sample .blank _ _ _).2 hnested
  have hrefused := (default_holds_all_but_longest 1 _ _ ht .longest .blank _ _ _).2 hlongest
  rw [if_neg (by decide)] at htaken'
  rw [if_pos hsize] at hrefused
  exact ⟨ht, ⟨htop, htaken⟩, ⟨hnested, htaken'⟩, ⟨out, hlongest⟩, hrefused⟩

theorem longest_refused :
    (∃ out, Message.longest.encodeNested (List.replicate 65537 0) = (.ok 65537, out)) ∧
    ((Pool.ofCount Pool.defaultCount Pool.defaultCapacity).acquire.1.encodeNested .longest).1 =
      .error (.bufferTooSmall 65537 65536) := by
  obtain ⟨out, he⟩ := Message.encodeNested_longest
  obtain ⟨storage, pool, hacquire, hstorage, -⟩ :=
    (Pool.Uniform.ofCount Pool.defaultCount Pool.defaultCapacity).acquire
  have hcapacity : (⟨storage, 0⟩ : PoolBuffer).capacity = 65536 := hstorage
  have hrefused := (Message.longest.atomic_encodeNested).afterEncoding_of_lt he (b := ⟨storage, 0⟩) (by omega)
  rw [hcapacity] at hrefused
  rw [hacquire]
  exact ⟨⟨out, he⟩, congrArg Prod.fst hrefused⟩

end GameHost
