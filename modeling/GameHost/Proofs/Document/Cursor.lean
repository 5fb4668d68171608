import GameHost.Document.Blocks
import Mathlib.Data.List.Basic

namespace GameHost

abbrev Entry := String × String

namespace Document

variable (d : Document)

theorem le_ahead : ∀ c ∈ d.cursor, c ≤ d.ahead := by
  intro c hc
  rw [ahead, Option.mem_def.1 hc]
  exact Nat.le_succ c

theorem ahead_advance (n : Nat) : (d.advance n).ahead = d.ahead + n := by
  rw [advance]
  split
  · next hzero => rw [hzero, Nat.add_zero]
  · simp only [ahead, Option.elim_some]
    omega

theorem entries_advance (n : Nat) : (d.advance n).entries = d.entries := by
  rw [advance]
  split <;> rfl

theorem advance_advance (m n : Nat) : (d.advance m).advance n = d.advance (m + n) := by
  cases n with
  | zero => rfl
  | succ n =>
    rw [advance, if_neg (Nat.succ_ne_zero n), ahead_advance, advance, advance]
    split
    · next hzero => simp [hzero]
    · simp [Nat.add_assoc]

theorem advance_of_cursor {i : Nat} (hcursor : d.cursor = some i) (n : Nat) :
    d.advance n = { d with cursor := some (i + n) } := by
  cases n with
  | zero =>
    rw [Nat.add_zero, ← hcursor]
    rfl
  | succ n =>
    rw [advance, if_neg (Nat.succ_ne_zero n), ahead, hcursor, Option.elim_some]
    congr 2
    omega

variable {d}

theorem takeWhile_plain {es rest : List Entry} (hplain : ∀ e ∈ es, isMarker e.1 = false)
    (hrest : ∀ e ∈ rest.head?, isMarker e.1) : (es ++ rest).takeWhile (fun e ↦ !isMarker e.1) = es := by
  rw [List.takeWhile_append_of_pos (by simpa using hplain)]
  cases rest with
  | nil => simp
  | cons e rest => simp [hrest e rfl]

theorem getElem?_of_drop {α : Type} {l rest : List α} {a : α} {i : Nat} (h : l.drop i = a :: rest) :
    l[i]? = some a ∧ l.drop (i + 1) = rest := by
  constructor
  · rw [← Nat.add_zero i, ← List.getElem?_drop, h]
    rfl
  · rw [← List.drop_drop, h, List.drop_one, List.tail_cons]

theorem next?_of_nil (h : d.upcoming = []) : d.next? = none := by
  rw [next?, moveTo?]
  cases hat : d.entries[d.ahead]? with
  | none => rfl
  | some e =>
    obtain ⟨hlt, rfl⟩ := List.getElem?_eq_some_iff.1 hat
    rw [upcoming, List.drop_eq_getElem_cons hlt, List.takeWhile_cons] at h
    cases hmarker : isMarker d.entries[d.ahead].1 with
    | true => simp [hmarker]
    | false => simp [hmarker] at h

theorem next?_of_cons {e : Entry} {es : List Entry} (h : d.upcoming = e :: es) :
    d.next? = some (d.advance 1) ∧ entry? (d.advance 1) = some e ∧ (d.advance 1).upcoming = es := by
  rw [upcoming] at h
  cases hrest : d.entries.drop d.ahead with
  | nil =>
    rw [hrest] at h
    cases h
  | cons e' rest =>
    obtain ⟨hat, hbehind⟩ := getElem?_of_drop hrest
    rw [hrest, List.takeWhile_cons] at h
    split at h
    · next hmarker =>
      obtain ⟨rfl, hes⟩ := List.cons.inj h
      refine ⟨?_, ?_, ?_⟩
      · rw [next?, moveTo?, hat, Option.filter_some, if_pos hmarker]
        rfl
      · rw [ entry?, entries_advance]
        exact hat
      · rw [upcoming, entries_advance, ahead_advance, hbehind]
        exact hes
    · cases h

theorem next?_eq_none_iff : d.next? = none ↔ d.upcoming = [] := by
  refine ⟨fun hnone ↦ ?_, next?_of_nil⟩
  cases hupcoming : d.upcoming with
  | nil => rfl
  | cons e es =>
    rw [(next?_of_cons hupcoming).1] at hnone
    cases hnone

def walk : Nat → Document → Document
  | 0, d => d
  | n + 1, d => walk n (d.next?.getD d)

theorem walk_eq (n : ℕ) (d : Document) : ∃ m ≤ d.upcoming.length, d.walk n = d.advance m := by
  induction n generalizing d with
  | zero => exact ⟨0, Nat.zero_le _, rfl⟩
  | succ n ih =>
    cases hupcoming : d.upcoming with
    | nil =>
      obtain ⟨m, hm, hwalk⟩ := ih d
      rw [hupcoming] at hm
      rw [walk, next?_of_nil hupcoming]
      exact ⟨m, hm, hwalk⟩
    | cons e es =>
      obtain ⟨hsome, -, hes⟩ := next?_of_cons hupcoming
      obtain ⟨m, hm, hwalk⟩ := ih (d.advance 1)
      rw [hes] at hm
      refine ⟨1 + m, ?_, ?_⟩
      · rw [List.length_cons]
        omega
      · rw [walk, hsome, Option.getD_some, hwalk, advance_advance]

end Document

/-- A reader decides from the entry at hand whether to stop or to move on, and then hears whether it has
moved. -/
structure Reader (σ : Type) where
  State : Type
  start : σ → State
  step : State → Option Entry → σ ⊕ (Bool → State)

namespace Reader

variable {σ : Type} (r : Reader σ)

inductive Runs : r.State → Document → σ → Document → Prop
  | stop {q : r.State} {d : Document} {s : σ} (hstep : r.step q d.entry? = .inl s) : Runs q d s d
  | moved {q : r.State} {d d' last : Document} {s : σ} {k : Bool → r.State}
      (hstep : r.step q d.entry? = .inr k) (hnext : d.next? = some d') (hrest : Runs (k true) d' s last) :
      Runs q d s last
  | stayed {q : r.State} {d last : Document} {s : σ} {k : Bool → r.State}
      (hstep : r.step q d.entry? = .inr k) (hnext : d.next? = none) (hrest : Runs (k false) d s last) :
      Runs q d s last

/-- How a reader goes over a list of entries, with `here?` at hand. -/
inductive Sees : r.State → Option Entry → List Entry → σ → Prop
  | stop {q : r.State} {here? : Option Entry} {es : List Entry} {s : σ} (hstep : r.step q here? = .inl s) :
      Sees q here? es s
  | moved {q : r.State} {here? : Option Entry} {e : Entry} {es : List Entry} {s : σ} {k : Bool → r.State}
      (hstep : r.step q here? = .inr k) (hrest : Sees (k true) (some e) es s) : Sees q here? (e :: es) s
  | stayed {q : r.State} {here? : Option Entry} {s : σ} {k : Bool → r.State}
      (hstep : r.step q here? = .inr k) (hrest : Sees (k false) here? [] s) : Sees q here? [] s

variable {r}

theorem Runs.sees {q : r.State} {d last : Document} {s : σ} (h : r.Runs q d s last) :
    r.Sees q d.entry? d.upcoming s ∧ ∃ n ≤ d.upcoming.length, last = d.advance n := by
  induction h with
  | stop hstep => exact ⟨.stop hstep, 0, Nat.zero_le _, rfl⟩
  | @moved q d d' last s k hstep hnext hrest ih =>
    obtain ⟨hsees, n, hn, hlast⟩ := ih
    -- The cursor has moved, so there was an entry to move to.
    cases hupcoming : d.upcoming with
    | nil =>
      rw [Document.next?_of_nil hupcoming] at hnext
      cases hnext
    | cons e es =>
      obtain ⟨hsome, hentry, hes⟩ := Document.next?_of_cons hupcoming
      obtain rfl : d.advance 1 = d' := Option.some.inj (hsome.symm.trans hnext)
      rw [hentry, hes] at hsees
      rw [hes] at hn
      refine ⟨.moved hstep hsees, 1 + n, ?_, ?_⟩
      · rw [List.length_cons]
        omega
      · rw [hlast, Document.advance_advance]
  | @stayed q d last s k hstep hnext hrest ih =>
    obtain ⟨hsees, hlast⟩ := ih
    cases hupcoming : d.upcoming with
    | nil =>
      rw [hupcoming] at hsees hlast
      exact ⟨.stayed hstep hsees, hlast⟩
    | cons e es =>
      rw [(Document.next?_of_cons hupcoming).1] at hnext
      cases hnext

def collector : Reader (List Entry) where
  State := Option Bool × List Entry
  start seen := (none, seen)
  step
    | (none, seen), _ => .inr fun moved ↦ (some moved, seen)
    | (some true, seen), here? => .inr fun moved ↦ (some moved, seen ++ here?.toList)
    | (some false, seen), _ => .inl seen

theorem collector_goes_on {es : List Entry} {d : Document} (h : d.upcoming = es) (seen : List Entry) :
    collector.Runs (some true, seen) d (seen ++ d.entry?.toList ++ es) (d.advance es.length) := by
  induction es generalizing d seen with
  | nil =>
    rw [List.append_nil]
    exact .stayed rfl (Document.next?_of_nil h) (.stop rfl)
  | cons e es ih =>
    obtain ⟨hsome, hentry, hes⟩ := Document.next?_of_cons h
    have hrest := ih hes (seen ++ d.entry?.toList)
    rw [hentry, Document.advance_advance, Nat.add_comm, List.append_assoc] at hrest
    exact .moved rfl hsome hrest

theorem collector_runs (seen : List Entry) (d : Document) :
    collector.Runs (collector.start seen) d (seen ++ d.upcoming) (d.advance d.upcoming.length) := by
  cases h : d.upcoming with
  | nil =>
    rw [List.append_nil]
    exact .stayed rfl (Document.next?_of_nil h) (.stop rfl)
  | cons e es =>
    obtain ⟨hsome, hentry, hes⟩ := Document.next?_of_cons h
    have hrest := collector_goes_on hes seen
    rw [hentry, Document.advance_advance, Nat.add_comm, List.append_assoc] at hrest
    exact .moved rfl hsome hrest

end Reader
end GameHost
