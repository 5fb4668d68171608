import GameHost.Module.Records
import Mathlib.Data.Nat.Notation
import Mathlib.Tactic.ByContra

namespace GameHost

namespace Slots

variable {V : Type} {slots : List (ℕ × V)} {offset i k n : ℕ} {v : V}

/-- Narrows the `n` slots from the `i`-th on down to one. -/
def narrow (slots : List (ℕ × V)) (offset i n : ℕ) : ℕ :=
  if n ≤ 1 then i
  else if slots[i + n / 2]?.any (·.1 ≤ offset) then narrow slots offset (i + n / 2) (n - n / 2)
  else narrow slots offset i (n - n / 2)

def index? (slots : List (ℕ × V)) (offset : ℕ) : Option ℕ :=
  let i := narrow slots offset 0 slots.length
  if slots[i]?.any (·.1 = offset) then some i else none

theorem lt_of_getElem? (hsorted : slots.Pairwise (·.1 < ·.1)) {a b : ℕ × V} (ha : slots[i]? = some a)
    (hb : slots[k]? = some b) (h : i < k) : a.1 < b.1 := by
  obtain ⟨hi, rfl⟩ := List.getElem?_eq_some_iff.1 ha
  obtain ⟨hk, rfl⟩ := List.getElem?_eq_some_iff.1 hb
  exact List.pairwise_iff_getElem.1 hsorted i k hi hk h

theorem eq_of_getElem? (hsorted : slots.Pairwise (·.1 < ·.1)) {a b : ℕ × V} (ha : slots[i]? = some a)
    (hb : slots[k]? = some b) (h : a.1 = b.1) : i = k := by
  rcases Nat.lt_trichotomy i k with hlt | heq | hgt
  · have := lt_of_getElem? hsorted ha hb hlt
    omega
  · exact heq
  · have := lt_of_getElem? hsorted hb ha hgt
    omega

theorem narrow_eq (hsorted : slots.Pairwise (·.1 < ·.1)) (hat : slots[k]? = some (offset, v)) (hlow : i ≤ k)
    (hhigh : k < i + n) : narrow slots offset i n = k := by
  fun_induction narrow slots offset i n with
  | case1 i n hone => omega
  | case2 i n hmany hle ih =>
    apply ih
    · by_contra hbefore
      obtain ⟨mid, hmid, hmidle⟩ : ∃ mid, slots[i + n / 2]? = some mid ∧ mid.1 ≤ offset := by
        simpa [Option.any_eq_true] using hle
      exact Nat.not_le.2 (lt_of_getElem? hsorted hat hmid (Nat.not_le.1 hbefore)) hmidle
    · omega
  | case3 i n hmany hgt ih =>
    apply ih hlow
    by_contra hbehind
    have hk := (List.getElem?_eq_some_iff.1 hat).1
    have hmid := List.getElem?_eq_getElem (show i + n / 2 < slots.length by omega)
    rw [hmid, Option.any_some, decide_eq_true_eq, Nat.not_le] at hgt
    rcases Nat.lt_or_eq_of_le (show i + n / 2 ≤ k by omega) with hlt | heq
    · exact absurd (lt_of_getElem? hsorted hmid hat hlt) (Nat.lt_asymm hgt)
    · subst heq
      rw [hmid] at hat
      rw [Option.some.inj hat] at hgt
      exact Nat.lt_irrefl _ hgt

theorem index?_eq_some (hsorted : slots.Pairwise (·.1 < ·.1)) :
    index? slots offset = some k ↔ ∃ v, slots[k]? = some (offset, v) := by
  have hthere (i : ℕ) : slots[i]?.any (·.1 = offset) ↔ ∃ v, slots[i]? = some (offset, v) := by
    simp [Option.any_eq_true, Prod.exists]
  simp only [index?, Option.ite_none_right_eq_some, Option.some.injEq, hthere]
  constructor
  · rintro ⟨hat, rfl⟩
    exact hat
  · rintro ⟨v, hat⟩
    have hk := (List.getElem?_eq_some_iff.1 hat).1
    have hnarrow := narrow_eq (n := slots.length) hsorted hat (Nat.zero_le k) (by omega)
    exact ⟨⟨v, by rw [hnarrow, hat]⟩, hnarrow⟩

theorem lookup_eq_some (hsorted : slots.Pairwise (·.1 < ·.1)) :
    slots.lookup offset = some v ↔ (offset, v) ∈ slots := by
  induction slots with
  | nil => simp
  | cons s slots ih =>
    obtain ⟨hfirst, hrest⟩ := List.pairwise_cons.1 hsorted
    rw [List.lookup_cons, List.mem_cons]
    by_cases heq : offset = s.1
    · subst heq
      have hlater : (s.1, v) ∉ slots := fun hmem ↦ Nat.lt_irrefl _ (hfirst (s.1, v) hmem)
      simp [hlater, Prod.ext_iff, eq_comm]
    · rw [beq_false_of_ne heq]
      simp [heq, ih hrest, Prod.ext_iff]

theorem lookup_eq (hsorted : slots.Pairwise (·.1 < ·.1)) :
    slots.lookup offset = ((index? slots offset).bind (slots[·]?)).map (·.2) := by
  apply Option.ext
  intro v
  rw [lookup_eq_some hsorted, List.mem_iff_getElem?]
  simp only [Option.map_eq_some_iff, Option.bind_eq_some_iff, index?_eq_some hsorted]
  constructor
  · rintro ⟨k, hat⟩
    exact ⟨_, ⟨k, ⟨v, hat⟩, hat⟩, rfl⟩
  · rintro ⟨s, ⟨k, ⟨u, hat⟩, hat'⟩, rfl⟩
    rw [hat] at hat'
    cases hat'
    exact ⟨k, hat⟩

theorem map_eq_set (hsorted : slots.Pairwise (·.1 < ·.1)) {u : V} (hat : slots[k]? = some (offset, u)) :
    (slots.map fun s ↦ if s.1 = offset then (s.1, v) else s) = slots.set k (offset, v) := by
  apply List.ext_getElem?
  intro j
  rw [List.getElem?_map, List.getElem?_set]
  by_cases hj : k = j
  · subst hj
    rw [hat, Option.map_some, if_pos rfl, if_pos rfl, if_pos (List.getElem?_eq_some_iff.1 hat).1]
  · rw [if_neg hj]
    cases hother : slots[j]? with
    | none => rfl
    | some s =>
      have hne : s.1 ≠ offset := fun heq ↦ hj (eq_of_getElem? hsorted hat hother heq.symm)
      rw [Option.map_some, if_neg hne]

end Slots

namespace Record

open Slots

variable {V τ : Type} [DecidableEq τ] [Typed V τ]

def found? (r : Record V) (key : RecordKey τ) : Option V :=
  (((index? r.slots key.offset).bind (r.slots[·]?)).map (·.2)).filter fun v ↦ Typed.typeOf v = key.type

def replace? (r : Record V) (key : RecordKey τ) (v : V) : Option (Record V) :=
  if (r.found? key).isSome ∧ Typed.typeOf v = key.type then
    (index? r.slots key.offset).map fun i ↦ { r with slots := r.slots.set i (key.offset, v) }
  else none

variable {r : Record V} (hsorted : r.slots.Pairwise (·.1 < ·.1)) (key : RecordKey τ)

include hsorted

theorem get?_eq : r.get? key = r.found? key := by rw [get?, found?, lookup_eq hsorted]

theorem set?_eq (v : V) : r.set? key v = r.replace? key v := by
  rw [set?, replace?, get?_eq hsorted]
  split
  · next h =>
    cases hindex : index? r.slots key.offset with
    | none => simp [found?, hindex] at h
    | some i =>
      obtain ⟨u, hat⟩ := (index?_eq_some hsorted).1 hindex
      rw [map_eq_set hsorted hat, Option.map_some]
  · rfl

end Record

end GameHost
