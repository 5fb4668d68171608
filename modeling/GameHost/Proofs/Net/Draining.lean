import GameHost.Net.Writer
import GameHost.Proofs.Buffer.Queue

namespace GameHost

namespace Ring

variable {r : Ring}

def contents (rings : List Ring) : Bytes := rings.flatMap toList

theorem contents_append (rings more : List Ring) : contents (rings ++ more) = contents rings ++ contents more :=
  List.flatMap_append

theorem toList_of_isEmpty (hempty : r.isEmpty) : r.toList = [] := by
  have hsize : r.size = 0 := eq_of_beq hempty
  simp [toList, slices, hsize]

namespace Valid

theorem holds (h : r.Valid) : ∃ q : Queue, q.contents = r.toList ∧ r.Holds q := by
  have hbounded : r.toList.length ≤ r.capacity := by
    rw [h.length_toList]
    exact h.size_le
  exact ⟨⟨r.capacity, r.toList, hbounded⟩, rfl, h, rfl, rfl⟩

theorem slices_ne_nil (h : r.Valid) (hfilled : r.size ≠ 0) : r.slices.1 ≠ [] := by
  obtain ⟨q, hq, hholds⟩ := h.holds
  apply hholds.front_ne_nil
  apply List.ne_nil_of_length_pos
  rw [hq, h.length_toList]
  exact Nat.pos_of_ne_zero hfilled

theorem forward (h : r.Valid) (n : ℕ) :
    (r.forward (r.slices.1.take n).length).2.Valid ∧
      r.slices.1.take n ++ (r.forward (r.slices.1.take n).length).2.toList = r.toList ∧
      (r.slices.1.take n).length + (r.forward (r.slices.1.take n).length).2.size = r.size := by
  have hprefix : r.slices.1.take n <+: r.toList := (List.take_prefix n _).trans (List.prefix_append ..)
  have hle : (r.slices.1.take n).length ≤ r.size := by
    rw [← h.length_toList]
    exact hprefix.length_le
  have hforward : r.forward (r.slices.1.take n).length = (true, r.advance (r.slices.1.take n).length) :=
    if_neg (Nat.not_lt.2 hle)
  obtain ⟨hvalid, -, hrest⟩ := h.advance hle
  have hlength := congrArg List.length hrest
  rw [hvalid.length_toList, List.length_drop, h.length_toList] at hlength
  rw [hforward]
  refine ⟨hvalid, ?_, ?_⟩
  · obtain ⟨rest, heq⟩ := hprefix
    rw [hrest, ← heq, List.drop_left]
  · dsimp only
    omega

end Valid
end Ring

namespace Writer

open GameHost.Ring (contents)

variable {accepted : List Ring} {counted depth sent : ℕ} {w after : Writer} {ring : Ring}

/-- How far a writer is that was given the `accepted` rings, of whose bytes so many were counted as sent. -/
inductive Carries (accepted : List Ring) (counted : ℕ) : Writer → Prop
  | idle {queue : List Ring} {written : Bytes} (hqueue : ∀ ring ∈ queue, ring.Valid)
      (hall : written ++ contents queue = contents accepted) (hcount : counted = written.length) :
      Carries accepted counted ⟨queue, .idle, written⟩
  | busy {queue : List Ring} {ring : Ring} {sent : ℕ} {written : Bytes} (hqueue : ∀ ring ∈ queue, ring.Valid)
      (hring : ring.Valid) (hall : written ++ (ring.toList ++ contents queue) = contents accepted)
      (hcount : counted + sent = written.length) : Carries accepted counted ⟨queue, .busy ring sent, written⟩
  | stopped {queue : List Ring} {written : Bytes} (hout : written <+: contents accepted)
      (hcount : counted ≤ written.length) : Carries accepted counted ⟨queue, .stopped, written⟩

/-- A writer goes on: without a new ring, and not to its end. -/
structure GoesOn (w after : Writer) : Prop where
  queue : after.queue.length ≤ w.queue.length
  stopped : after.sending = .stopped → w.sending = .stopped

theorem goesOn_take (w : Writer) : w.GoesOn w.take := by
  rcases w with ⟨_ | ⟨ring, queue⟩, _ | _ | _, written⟩
  case cons.idle => exact ⟨Nat.le_succ _, fun hstopped ↦ nomatch hstopped⟩
  all_goals exact ⟨Nat.le_refl _, fun hstopped ↦ hstopped⟩

theorem goesOn_write (w : Writer) (n : ℕ) : w.GoesOn (w.write n) := by
  rcases w with ⟨queue, _ | _ | _, written⟩
  case busy => exact ⟨Nat.le_refl _, fun hstopped ↦ nomatch hstopped⟩
  all_goals exact ⟨Nat.le_refl _, fun hstopped ↦ hstopped⟩

theorem finish?_eq_some (hfinish : w.finish? = some (sent, after)) :
    ∃ ring, w.sending = .busy ring sent ∧ ring.isEmpty ∧ after = { w with sending := .idle } := by
  simp only [finish?] at hfinish
  split at hfinish
  · next hbusy =>
    split at hfinish
    · next hempty =>
      cases hfinish
      exact ⟨_, hbusy, hempty, rfl⟩
    · cases hfinish
  · cases hfinish

theorem offer_eq_taken (hoffer : w.offer depth ring = (.taken, after)) :
    w.sending ≠ .stopped ∧ w.queue.length < max depth 1 ∧ after = { w with queue := w.queue ++ [ring] } := by
  simp only [offer] at hoffer
  split at hoffer
  · cases hoffer
  · next hrunning =>
    split at hoffer
    · next hroom =>
      cases hoffer
      exact ⟨hrunning, hroom, rfl⟩
    · cases hoffer

theorem offer_of_room (hrunning : w.sending ≠ .stopped) (hroom : w.queue.length < max depth 1) :
    (w.offer depth ring).1 = .taken := by
  rcases w with ⟨queue, _ | _ | _, written⟩
  case stopped => exact absurd rfl hrunning
  all_goals exact congrArg Prod.fst (if_pos hroom)

theorem offer_of_full (hfull : max depth 1 ≤ w.queue.length) :
    w.offer depth ring = (if w.sending = .stopped then .stopped else .full, w) := by
  rcases w with ⟨queue, _ | _ | _, written⟩ <;> simp [offer, Nat.not_lt.2 hfull]

namespace Carries

theorem fresh : Carries [] 0 .fresh := .idle (by simp) rfl rfl

theorem offer (h : Carries accepted counted w) (hring : ring.Valid) (hoffer : w.offer depth ring = (.taken, after)) :
    Carries (accepted ++ [ring]) counted after := by
  obtain ⟨hrunning, -, rfl⟩ := offer_eq_taken hoffer
  have hvalid {queue : List Ring} (hqueue : ∀ ring ∈ queue, ring.Valid) : ∀ r ∈ queue ++ [ring], r.Valid := by
    simpa [or_imp, forall_and] using ⟨hqueue, hring⟩
  cases h with
  | idle hqueue hall hcount =>
    refine .idle (hvalid hqueue) ?_ hcount
    rw [Ring.contents_append, Ring.contents_append, ← List.append_assoc, hall]
  | busy hqueue hinhand hall hcount =>
    refine .busy (hvalid hqueue) hinhand ?_ hcount
    rw [Ring.contents_append, Ring.contents_append, ← hall, List.append_assoc, List.append_assoc]
  | stopped => exact absurd rfl hrunning

theorem take (h : Carries accepted counted w) : Carries accepted counted w.take := by
  cases h with
  | @idle queue written hqueue hall hcount =>
    cases queue with
    | nil => exact .idle hqueue hall hcount
    | cons ring queue =>
      rw [List.forall_mem_cons] at hqueue
      exact .busy hqueue.2 hqueue.1 hall hcount
  | busy hqueue hring hall hcount => exact .busy hqueue hring hall hcount
  | stopped hout hcount => exact .stopped hout hcount

theorem write (h : Carries accepted counted w) (n : ℕ) : Carries accepted counted (w.write n) := by
  cases h with
  | idle hqueue hall hcount => exact .idle hqueue hall hcount
  | busy hqueue hring hall hcount =>
    obtain ⟨hnext, hout, -⟩ := hring.forward n
    refine .busy hqueue hnext ?_ ?_
    · rw [← hall, ← hout]
      simp only [List.append_assoc]
    · rw [List.length_append, ← hcount, Nat.add_assoc]
  | stopped hout hcount => exact .stopped hout hcount

theorem finish (h : Carries accepted counted w) (hfinish : w.finish? = some (sent, after)) :
    Carries accepted (counted + sent) after := by
  obtain ⟨ring, hbusy, hempty, rfl⟩ := finish?_eq_some hfinish
  cases h with
  | idle => cases hbusy
  | stopped => cases hbusy
  | busy hqueue hring hall hcount =>
    cases hbusy
    rw [Ring.toList_of_isEmpty hempty, List.nil_append] at hall
    exact .idle hqueue hall hcount

theorem written_prefix (h : Carries accepted counted w) : w.written <+: contents accepted := by
  cases h with
  | idle _ hall => exact ⟨_, hall⟩
  | busy _ _ hall => exact ⟨_, hall⟩
  | stopped hout => exact hout

theorem counted_le (h : Carries accepted counted w) : counted ≤ w.written.length := by
  cases h with
  | idle _ _ hcount => exact Nat.le_of_eq hcount
  | busy _ _ _ hcount => exact Nat.le.intro hcount
  | stopped _ hcount => exact hcount

theorem stop (h : Carries accepted counted w) : Carries accepted counted w.stop :=
  .stopped h.written_prefix h.counted_le

theorem whole (h : Carries accepted counted w) (hidle : w.sending = .idle) (hempty : w.queue = []) :
    w.written = contents accepted ∧ counted = w.written.length := by
  cases h with
  | idle _ hall hcount =>
    subst hempty
    exact ⟨by simpa [contents] using hall, hcount⟩
  | busy => cases hidle
  | stopped => cases hidle

end Carries

/-- As many writes as there are bytes in a ring are enough to be done with it, if each takes a byte at least. -/
theorem drains {queue : List Ring} {written : Bytes} (hring : ring.Valid) {ns : List ℕ} (hpos : ∀ n ∈ ns, 0 < n)
    (hlen : ring.size ≤ ns.length) :
    (ns.foldl Writer.write ⟨queue, .busy ring sent, written⟩).finish? =
      some (sent + ring.size, ⟨queue, .idle, written ++ ring.toList⟩) := by
  induction ns generalizing ring sent written with
  | nil =>
    have hsize : ring.size = 0 := Nat.le_zero.1 hlen
    have hempty : ring.isEmpty := beq_iff_eq.2 hsize
    simp [finish?, hempty, hsize, Ring.toList_of_isEmpty hempty]
  | cons n ns ih =>
    rw [List.forall_mem_cons] at hpos
    obtain ⟨hnext, hout, hsize⟩ := hring.forward n
    have hrest : (ring.forward (ring.slices.1.take n).length).2.size ≤ ns.length := by
      by_cases hfilled : ring.size = 0
      · omega
      · have hsome := List.length_pos_iff.2 (hring.slices_ne_nil hfilled)
        have hout : (ring.slices.1.take n).length = min n ring.slices.1.length := List.length_take
        have hn := hpos.1
        rw [List.length_cons] at hlen
        omega
    rw [List.foldl_cons, write, ih hnext hpos.2 hrest, Nat.add_assoc, hsize, List.append_assoc, hout]

theorem Carries.drains (h : Carries accepted counted w) (hbusy : w.sending = .busy ring sent) {ns : List ℕ}
    (hpos : ∀ n ∈ ns, 0 < n) (hlen : ring.size ≤ ns.length) :
    (ns.foldl Writer.write w).finish? = some (sent + ring.size, ⟨w.queue, .idle, w.written ++ ring.toList⟩) := by
  cases h with
  | idle => cases hbusy
  | stopped => cases hbusy
  | busy _ hring =>
    cases hbusy
    exact Writer.drains hring hpos hlen

end Writer
end GameHost
