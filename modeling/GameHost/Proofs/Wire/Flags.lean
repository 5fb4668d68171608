import GameHost.Proofs.Wire.Copying
import GameHost.Proofs.Wire.Bounds
import Mathlib.Data.Nat.Bitwise

namespace GameHost

namespace Flags

/-- The bit of a field. The word cannot be shifted by its width or more. -/
def bit? (i : ℕ) : Option UInt32 := if i < 32 then some (1 <<< UInt32.ofNat i) else none

def test? (flags : UInt32) (i : ℕ) : Option Bool := (bit? i).map fun bit ↦ flags &&& bit != 0

variable {flags bit : UInt32} {i j : ℕ}

theorem bit?_eq_some : bit? i = some bit ↔ i < 32 ∧ bit.toNat = 2 ^ i := by
  rw [bit?]
  split
  · next hi =>
    have hword : (1 <<< UInt32.ofNat i : UInt32).toNat = 2 ^ i := by
      have hlt : 2 ^ i < 2 ^ 32 := Nat.pow_lt_pow_right (by decide) hi
      rw [UInt32.toNat_shiftLeft, UInt32.toNat_ofNat', Nat.mod_mod_of_dvd _ (by decide), Nat.mod_eq_of_lt hi,
        UInt32.toNat_one, Nat.shiftLeft_eq, Nat.one_mul, Nat.mod_eq_of_lt hlt]
    rw [Option.some_inj, ← UInt32.toNat_inj, hword]
    exact ⟨fun h ↦ ⟨hi, h.symm⟩, fun h ↦ h.2.symm⟩
  · next hi => exact ⟨nofun, fun h ↦ absurd h.1 hi⟩

theorem exists_bit (h : i < 32) : ∃ bit, bit? i = some bit ∧ bit.toNat = 2 ^ i := by
  have hlt : 2 ^ i < 2 ^ 32 := Nat.pow_lt_pow_right (by decide) h
  have hword : (UInt32.ofNat (2 ^ i)).toNat = 2 ^ i := UInt32.toNat_ofNat_of_lt' hlt
  exact ⟨_, bit?_eq_some.2 ⟨h, hword⟩, hword⟩

theorem test?_eq (flags : UInt32) (i : ℕ) : test? flags i = Cursor.bit flags.toNat i := by
  by_cases h : i < 32
  · obtain ⟨bit, hbit, hword⟩ := exists_bit h
    rw [test?, hbit, Option.map_some, Cursor.bit_eq h, Option.some_inj]
    have hand : (flags &&& bit).toNat = (flags.toNat.testBit i).toNat * 2 ^ i := by
      rw [UInt32.toNat_and, hword, Nat.and_two_pow]
    cases hset : flags.toNat.testBit i with
    | false =>
      rw [hset] at hand
      have hzero : flags &&& bit = 0 := UInt32.toNat_inj.1 (by simpa using hand)
      simp [hzero]
    | true =>
      rw [hset] at hand
      have hpos : 0 < 2 ^ i := Nat.two_pow_pos i
      have hne : flags &&& bit ≠ 0 := by
        intro hzero
        rw [hzero, UInt32.toNat_zero, Bool.toNat_true, Nat.one_mul] at hand
        omega
      simpa using hne
  · rw [test?, bit?, if_neg h, Cursor.bit, if_neg h]
    rfl

theorem toNat_raise (hbit : bit? i = some bit) (hlow : flags.toNat < 2 ^ i) :
    (flags ||| bit).toNat = flags.toNat + 2 ^ i := by
  obtain ⟨-, hword⟩ := bit?_eq_some.1 hbit
  have hadd := Nat.two_pow_add_eq_or_of_lt hlow 1
  rw [Nat.mul_one] at hadd
  rw [UInt32.toNat_or, hword, Nat.or_comm, ← hadd, Nat.add_comm]

end Flags

namespace FlagWidth

/-- The bytes of a flag word that is cut down to a width. -/
def store (w : FlagWidth) (flags : UInt32) : Bytes :=
  match w with
  | one => [flags.toUInt8]
  | two => Bytes.toLE 2 flags.toUInt16.toNat
  | four => Bytes.toLE 4 flags.toNat

theorem store_eq (w : FlagWidth) (flags : UInt32) : w.store flags = Bytes.toLE w.bytes flags.toNat := by
  cases w with
  | one => rfl
  | two =>
    have hword : (2 : ℕ) = (Bytes.toLE 2 flags.toNat).length := (Bytes.length_toLE 2 flags.toNat).symm
    have hcut : flags.toUInt16.toNat = Bytes.ofLE (Bytes.toLE 2 flags.toNat) := by
      rw [Bytes.ofLE_toLE, UInt32.toNat_toUInt16]
      rfl
    rw [store, hcut]
    exact Bytes.toLE_ofLE (Bytes.toLE 2 flags.toNat)
  | four => rfl

theorem ofLE_store {w : FlagWidth} {flags : UInt32} (h : flags.toNat < 2 ^ w.bits) :
    Bytes.ofLE (w.store flags) = flags.toNat := by
  rw [store_eq]
  exact Bytes.ofLE_toLE_of_lt (w.pow_bits ▸ h)

end FlagWidth

namespace Message

/-- Goes over the fields from index `i` on, raises the bits of those that have a value, and adds up their sizes. -/
def tally? : ℕ → UInt32 → ℕ → List (FieldSpec × Option FieldValue) → Option (Except Error (UInt32 × ℕ))
  | _, flags, total, [] => some (.ok (flags, total))
  | i, flags, total, (_, none) :: rest => tally? (i + 1) flags total rest
  | i, flags, total, (spec, some v) :: rest =>
    match v.sizeIn spec with
    | .error fault => some (.error (.encode i fault))
    | .ok none => tally? (i + 1) flags total rest
    | .ok (some size) => do
      let bit ← Flags.bit? i
      tally? (i + 1) (flags ||| bit) (total + size) rest

variable (m : Message)

def measure? : Option (Except Error (UInt32 × ℕ)) :=
  match m.badIndex with
  | some i => some (.error (.fieldOutOfRange i))
  | none => tally? 0 0 0 m.entries

def joined (i : ℕ) (flags : UInt32) (total : ℕ) (sizes : List (Option ℕ)) : UInt32 × ℕ :=
  (.ofNat (flags.toNat + 2 ^ i * flagWord (sizes.map Option.isSome)), total + bodySize sizes)

theorem joined_none (i : ℕ) (flags : UInt32) (total : ℕ) (sizes : List (Option ℕ)) :
    joined i flags total (none :: sizes) = joined (i + 1) flags total sizes := by
  simp only [joined, List.map_cons, Option.isSome_none, flagWord, Bool.toNat_false, bodySize, Option.getD_none,
    Nat.zero_add, Nat.pow_succ, Nat.mul_assoc]

theorem joined_some {i : ℕ} {flags bit : UInt32} (hbit : Flags.bit? i = some bit) (hlow : flags.toNat < 2 ^ i)
    (total size : ℕ) (sizes : List (Option ℕ)) :
    joined i flags total (some size :: sizes) = joined (i + 1) (flags ||| bit) (total + size) sizes := by
  simp only [joined, List.map_cons, Option.isSome_some, flagWord, Bool.toNat_true, bodySize, Option.getD_some,
    Flags.toNat_raise hbit hlow, Nat.pow_succ, Nat.mul_add, Nat.mul_one, Nat.mul_assoc, Nat.add_assoc]

theorem tally?_eq {entries : List (FieldSpec × Option FieldValue)} {i : ℕ} {flags : UInt32}
    (hroom : i + entries.length ≤ 32) (hlow : flags.toNat < 2 ^ i) (total : ℕ) :
    tally? i flags total entries = some ((sizesFrom i entries).map (joined i flags total)) := by
  induction entries generalizing i flags total with
  | nil => simp [tally?, sizesFrom, joined, flagWord, bodySize, Except.map]
  | cons entry entries ih =>
    rw [List.length_cons] at hroom
    have hlow' : flags.toNat < 2 ^ (i + 1) := Nat.lt_trans hlow (Nat.pow_lt_pow_succ (by decide))
    have hrest (flags : UInt32) (total : ℕ) (hlow : flags.toNat < 2 ^ (i + 1)) :
        tally? (i + 1) flags total entries = some ((sizesFrom (i + 1) entries).map (joined (i + 1) flags total)) :=
      ih (by omega) hlow total
    -- An absent field leaves the word and the size as they are.
    have habsent : tally? (i + 1) flags total entries =
        some ((sizesFrom (i + 1) entries >>= fun sizes ↦ pure (none :: sizes)).map (joined i flags total)) := by
      rw [hrest flags total hlow']
      cases sizesFrom (i + 1) entries with
      | error e => rfl
      | ok sizes => exact congrArg (some ∘ Except.ok) (joined_none i flags total sizes).symm
    obtain ⟨spec, value⟩ := entry
    cases value with
    | none => exact habsent
    | some v =>
      rw [tally?, sizesFrom]
      cases v.sizeIn spec with
      | error fault => rfl
      | ok size =>
        cases size with
        | none => exact habsent
        | some size =>
          obtain ⟨bit, hbit, -⟩ := Flags.exists_bit (i := i) (by omega)
          have hraised : (flags ||| bit).toNat < 2 ^ (i + 1) := by
            rw [Flags.toNat_raise hbit hlow, Nat.pow_succ]
            omega
          show (Flags.bit? i).bind _ = _
          rw [hbit, Option.bind_some, hrest _ _ hraised]
          cases sizesFrom (i + 1) entries with
          | error e => rfl
          | ok sizes => exact congrArg (some ∘ Except.ok) (joined_some hbit hlow total size sizes).symm

theorem measure?_eq : m.measure? = some (m.measure.map fun (flags, n) ↦ (.ofNat flags, n)) := by
  rw [measure?, measure]
  cases m.badIndex with
  | some i => rfl
  | none =>
    have hlength : 0 + m.entries.length ≤ 32 := by
      rw [Nat.zero_add, entries, List.length_zip, m.length_values]
      exact Nat.le_trans (Nat.min_le_right _ _) m.schema.size_le
    show tally? 0 0 0 m.entries = _
    rw [tally?_eq hlength (by decide)]
    cases sizesFrom 0 m.entries with
    | error e => rfl
    | ok sizes =>
      simp only [Except.map, joined, UInt32.toNat_zero, Nat.zero_add, Nat.pow_zero, Nat.one_mul]
      rfl

end Message

/-- Each field has a bit of its own in the flag word. No shift of the encoder or of the decoder goes too far, and the
bits of all fields get onto the wire. -/
structure Schema.BitsApart (s : Schema) : Prop where
  inWord (i : ℕ) : i < s.size → i < s.flagWidth.bits
  shift (i : ℕ) : i < s.size →
    ∃ bit, Flags.bit? i = some bit ∧ bit.toNat = 2 ^ i ∧ Bytes.ofLE (s.flagWidth.store bit) = 2 ^ i
  apart (i j : ℕ) : i < s.size → j < s.size → i ≠ j →
    ∀ bit other, Flags.bit? i = some bit → Flags.bit? j = some other → bit &&& other = 0
  encoded (m : Message) : m.schema = s → m.measure? = some (m.measure.map fun (flags, n) ↦ (.ofNat flags, n)) ∧
    ∀ flags n, m.measure = .ok (flags, n) → Bytes.ofLE (s.flagWidth.store (.ofNat flags)) = flags
  decoded (flags : UInt32) (i : ℕ) : i < s.size → Flags.test? flags i = some (flags.toNat.testBit i)

theorem FlagWidth.bits_le (w : FlagWidth) : w.bits ≤ 32 := by cases w <;> decide

theorem Schema.bitsApart (s : Schema) : s.BitsApart where
  inWord i hi := Nat.lt_of_lt_of_le hi s.length_le
  shift i hi := by
    have hbits : i < s.flagWidth.bits := Nat.lt_of_lt_of_le hi s.length_le
    obtain ⟨bit, hbit, hword⟩ := Flags.exists_bit (Nat.lt_of_lt_of_le hi s.size_le)
    refine ⟨bit, hbit, hword, ?_⟩
    rw [FlagWidth.ofLE_store, hword]
    rw [hword]
    exact Nat.pow_lt_pow_right (by decide) hbits
  apart i j hi hj hne bit other hbit hother := by
    obtain ⟨-, hword⟩ := Flags.bit?_eq_some.1 hbit
    obtain ⟨-, hword'⟩ := Flags.bit?_eq_some.1 hother
    apply UInt32.toNat_inj.1
    rw [UInt32.toNat_and, hword, hword', Nat.and_two_pow, Nat.testBit_two_pow_of_ne hne]
    exact Nat.zero_mul _
  encoded m hm := by
    refine ⟨m.measure?_eq, ?_⟩
    intro flags n hmeasure
    have hlt : flags < Bytes.limit s.flagWidth.bytes := hm ▸ Message.word_lt_of_measure hmeasure
    rw [← FlagWidth.pow_bits] at hlt
    have hword : (UInt32.ofNat flags).toNat = flags :=
      UInt32.toNat_ofNat_of_lt' (Nat.lt_of_lt_of_le hlt (Nat.pow_le_pow_right (by decide) s.flagWidth.bits_le))
    rw [FlagWidth.ofLE_store, hword]
    rwa [hword]
  decoded flags i hi := by
    rw [Flags.test?_eq, Cursor.bit_eq (Nat.lt_of_lt_of_le hi s.size_le)]

end GameHost
