import GameHost.Proofs.Buffer.Checked
import Mathlib.Data.List.Forall2

namespace GameHost

namespace Ring

/-- What is asked of one ring. A reader brings the bytes that are to be filled. -/
inductive Request
  | write (data : Bytes)
  | writeAll (data : Bytes)
  | read (out : Bytes)
  | peek (out : Bytes)
  | forward (n : Nat)
  | reset
  | slices
  | contiguous

inductive Reply
  | done
  | count (n : Nat)
  | verdict (ok : Bool)
  | filled (n : Nat) (out : Bytes)
  | runs (front back : Bytes)
  | run (front : Bytes)
  deriving DecidableEq, Repr

end Ring

open GameHost.Ring (Request Reply)

inductive Queue.Replies (q : Queue) : Request → Reply → Queue → Prop
  | write (data : Bytes) : q.Replies (.write data) (.count (data.take q.free).length) (q.push data)
  | stored {data : Bytes} (h : data.length ≤ q.free) :
      q.Replies (.writeAll data) (.verdict true) (q.push data)
  | full {data : Bytes} (h : q.free < data.length) : q.Replies (.writeAll data) (.verdict false) q
  | read {out oldest : Bytes} (h : oldest = q.contents.take out.length) :
      q.Replies (.read out) (.filled oldest.length (out.overwrite 0 oldest)) (q.pop oldest.length)
  | peek {out oldest : Bytes} (h : oldest = q.contents.take out.length) :
      q.Replies (.peek out) (.filled oldest.length (out.overwrite 0 oldest)) q
  | skipped {n : Nat} (h : n ≤ q.contents.length) : q.Replies (.forward n) (.verdict true) (q.pop n)
  | short {n : Nat} (h : q.contents.length < n) : q.Replies (.forward n) (.verdict false) q
  | reset : q.Replies .reset .done (.empty q.capacity)
  | slices {front back : Bytes} (h : front ++ back = q.contents) (hfront : q.contents ≠ [] → front ≠ []) :
      q.Replies .slices (.runs front back) q
  | contiguous {front : Bytes} (h : front <+: q.contents) (hfront : q.contents ≠ [] → front ≠ []) :
      q.Replies .contiguous (.run front) q

namespace Ring

def reply (r : Ring) : Request → Reply × Ring
  | .write data => (.count (r.write data).1, (r.write data).2)
  | .writeAll data => (.verdict (r.writeAll data).1, (r.writeAll data).2)
  | .read out =>
    let (oldest, r) := r.read out.length
    (.filled oldest.length (out.overwrite 0 oldest), r)
  | .peek out => (.filled (r.peek out.length).length (out.overwrite 0 (r.peek out.length)), r)
  | .forward n => (.verdict (r.forward n).1, (r.forward n).2)
  | .reset => (.done, r.reset)
  | .slices => (.runs r.slices.1 r.slices.2, r)
  | .contiguous => (.run r.slices.1, r)

def reply? (r : Ring) : Request → Option (Reply × Ring)
  | .write data => do
    let (n, r) ← r.write? data
    return (.count n, r)
  | .writeAll data => do
    let (ok, r) ← r.writeAll? data
    return (.verdict ok, r)
  | .read out => do
    let ((n, out), r) ← r.read? out
    return (.filled n out, r)
  | .peek out => do
    let (n, out) ← r.peek? out
    return (.filled n out, r)
  | .forward n => do
    let (ok, r) ← r.forward? n
    return (.verdict ok, r)
  | .reset => return (.done, r.reset)
  | .slices => do
    let (front, back) ← r.slices?
    return (.runs front back, r)
  | .contiguous => do
    let (front, _) ← r.slices?
    return (.run front, r)

theorem Valid.reply?_eq {r : Ring} (h : r.Valid) (request : Request) :
    r.reply? request = some (r.reply request) := by
  cases request with
  | write data =>
    rw [reply?, h.write?_eq]
    rfl
  | writeAll data =>
    rw [reply?, h.writeAll?_eq]
    rfl
  | read out =>
    rw [reply?, h.read?_eq]
    rfl
  | peek out =>
    rw [reply?, h.peek?_eq]
    rfl
  | forward n =>
    rw [reply?, h.forward?_eq]
    rfl
  | reset => rfl
  | slices =>
    rw [reply?, h.slices?_eq]
    rfl
  | contiguous =>
    rw [reply?, h.slices?_eq]
    rfl

theorem Holds.reply {r : Ring} {q : Queue} (h : r.Holds q) (request : Request) :
    ∃ next, q.Replies request (r.reply request).1 next ∧ (r.reply request).2.Holds next := by
  have hfree := h.free_eq
  have hsize := h.size_eq
  cases request with
  | write data =>
    obtain ⟨hn, hheld⟩ := h.write data
    refine ⟨q.push data, ?_, hheld⟩
    rw [Ring.reply, hn]
    exact .write data
  | writeAll data =>
    rw [Ring.reply, Ring.writeAll]
    by_cases hfull : r.free < data.length
    · rw [if_pos hfull]
      exact ⟨q, .full (by omega), h⟩
    · rw [if_neg hfull]
      exact ⟨q.push data, .stored (by omega), (h.write data).2⟩
  | read out =>
    have holdest := h.peek out.length
    have hlen : (r.peek out.length).length ≤ q.contents.length := by
      rw [holdest]
      exact List.length_take_le' ..
    exact ⟨_, .read holdest, h.advance hlen⟩
  | peek out => exact ⟨q, .peek (h.peek out.length), h⟩
  | forward n =>
    rw [Ring.reply, Ring.forward]
    by_cases hshort : r.size < n
    · rw [if_pos hshort]
      exact ⟨q, .short (by omega), h⟩
    · rw [if_neg hshort]
      exact ⟨q.pop n, .skipped (by omega), h.advance (by omega)⟩
  | reset => exact ⟨.empty q.capacity, .reset, .reset r, h.capacity_eq, rfl⟩
  | slices => exact ⟨q, .slices h.toList_eq h.front_ne_nil, h⟩
  | contiguous => exact ⟨q, .contiguous ⟨_, h.toList_eq⟩ h.front_ne_nil, h⟩

end Ring

namespace Rings

/-- A request to one ring, a copy of one as a further ring, or bytes moved from one into another. -/
inductive Command
  | ask (i : Nat) (request : Request)
  | clone (i : Nat)
  | consume (dst src : Nat)

/-- All that the command is about is among `k` rings, and it is about no ring twice. -/
def Command.Fits (k : Nat) : Command → Prop
  | .ask i _ => i < k
  | .clone i => i < k
  | .consume dst src => dst ≠ src ∧ dst < k ∧ src < k

end Rings

open GameHost.Rings (Command)

namespace Queues

inductive Step (queues : List Queue) : Command → Reply → List Queue → Prop
  | ask {i : Nat} {q next : Queue} {request : Request} {reply : Reply} (hi : queues[i]? = some q)
      (h : q.Replies request reply next) : Step queues (.ask i request) reply (queues.set i next)
  | clone {i : Nat} {q : Queue} (hi : queues[i]? = some q) :
      Step queues (.clone i) .done (queues ++ [q])
  | consume {dst src : Nat} {p q : Queue} {moved : Bytes} (hne : dst ≠ src)
      (hdst : queues[dst]? = some p) (hsrc : queues[src]? = some q) (h : moved = q.contents.take p.free) :
      Step queues (.consume dst src) (.count moved.length)
        ((queues.set dst (p.push moved)).set src (q.pop moved.length))
  /-- No program gives such a command. -/
  | void {command : Command} {reply : Reply} (h : ¬ command.Fits queues.length) :
      Step queues command reply queues

inductive Steps : List Queue → List Command → List Reply → List Queue → Prop
  | nil (queues : List Queue) : Steps queues [] [] queues
  | cons {queues next last : List Queue} {command : Command} {commands : List Command} {reply : Reply}
      {replies : List Reply} (h : Step queues command reply next)
      (hrest : Steps next commands replies last) :
      Steps queues (command :: commands) (reply :: replies) last

end Queues

namespace Rings

def perform (rings : List Ring) : Command → Reply × List Ring
  | .ask i request => match rings[i]? with
    | some r => ((r.reply request).1, rings.set i (r.reply request).2)
    | none => (.done, rings)
  | .clone i => (.done, rings ++ rings[i]?.toList)
  | .consume dst src => (.count (Ring.consumeAt rings dst src).1, (Ring.consumeAt rings dst src).2)

def perform? (rings : List Ring) : Command → Option (Reply × List Ring)
  | .ask i request => match rings[i]? with
    | some r => do
      let (reply, r) ← r.reply? request
      return (reply, rings.set i r)
    | none => return (.done, rings)
  | .clone i => return (.done, rings ++ rings[i]?.toList)
  | .consume dst src => match if dst = src then none else rings[dst]?, rings[src]? with
    | some into, some out => do
      let (n, into, out) ← Ring.consume? into out
      return (.count n, (rings.set dst into).set src out)
    | _, _ => return (.count 0, rings)

def run (rings : List Ring) : List Command → List Reply × List Ring
  | [] => ([], rings)
  | command :: commands =>
    let (reply, rings) := perform rings command
    let (replies, rings) := run rings commands
    (reply :: replies, rings)

def run? (rings : List Ring) : List Command → Option (List Reply × List Ring)
  | [] => return ([], rings)
  | command :: commands => do
    let (reply, rings) ← perform? rings command
    let (replies, rings) ← run? rings commands
    return (reply :: replies, rings)

end Rings

section Pairs

variable {α β : Type} {R : α → β → Prop} {as : List α} {bs : List β}

theorem forall₂_getElem? (h : List.Forall₂ R as bs) {i : Nat} {a : α} (ha : as[i]? = some a) :
    ∃ b, bs[i]? = some b ∧ R a b := by
  induction h generalizing i with
  | nil => cases ha
  | cons hab _ ih =>
    cases i with
    | zero =>
      cases ha
      exact ⟨_, rfl, hab⟩
    | succ i => exact ih ha

theorem forall₂_set (h : List.Forall₂ R as bs) {a : α} {b : β} (hab : R a b) (i : Nat) :
    List.Forall₂ R (as.set i a) (bs.set i b) := by
  induction h generalizing i with
  | nil => exact .nil
  | cons hhead htail ih =>
    cases i with
    | zero => exact .cons hab htail
    | succ i => exact .cons hhead (ih i)

end Pairs

namespace Rings

variable {rings : List Ring} {queues : List Queue}

theorem perform_void {command : Command} (h : ¬ command.Fits rings.length) :
    perform? rings command = some (perform rings command) ∧ (perform rings command).2 = rings := by
  cases command with
  | ask i request =>
    have hi : rings[i]? = none := List.getElem?_eq_none (Nat.le_of_not_lt h)
    rw [perform?, perform, hi]
    exact ⟨rfl, rfl⟩
  | clone i =>
    have hi : rings[i]? = none := List.getElem?_eq_none (Nat.le_of_not_lt h)
    rw [perform?, perform, hi]
    exact ⟨rfl, List.append_nil rings⟩
  | consume dst src =>
    rw [perform?, perform, Ring.consumeAt]
    by_cases hne : dst = src
    · rw [if_pos hne]
      exact ⟨rfl, rfl⟩
    · rw [if_neg hne]
      by_cases hdst : dst < rings.length
      · have hsrc : rings[src]? = none := by
          apply List.getElem?_eq_none
          apply Nat.le_of_not_lt
          intro hsrc
          exact h ⟨hne, hdst, hsrc⟩
        rw [hsrc]
        cases rings[dst]? <;> exact ⟨rfl, rfl⟩
      · rw [List.getElem?_eq_none (Nat.le_of_not_lt hdst)]
        exact ⟨rfl, rfl⟩

/-- A command does to the rings, with everything in range, what it does to the queues. -/
theorem perform_step (h : List.Forall₂ Ring.Holds rings queues) (command : Command) :
    perform? rings command = some (perform rings command) ∧
    ∃ next, Queues.Step queues command (perform rings command).1 next ∧
      List.Forall₂ Ring.Holds (perform rings command).2 next := by
  by_cases hfits : command.Fits rings.length
  · cases command with
    | ask i request =>
      have hi := List.getElem?_eq_getElem hfits
      obtain ⟨q, hq, hr⟩ := forall₂_getElem? h hi
      obtain ⟨next, hreply, hnext⟩ := hr.reply request
      rw [perform?, perform, hi]
      refine ⟨?_, _, .ask hq hreply, forall₂_set h hnext i⟩
      simp only [hr.valid.reply?_eq]
      rfl
    | clone i =>
      have hi := List.getElem?_eq_getElem hfits
      obtain ⟨q, hq, hr⟩ := forall₂_getElem? h hi
      rw [perform?, perform, hi]
      exact ⟨rfl, _, .clone hq, List.rel_append h (.cons hr .nil)⟩
    | consume dst src =>
      obtain ⟨hne, hdst, hsrc⟩ := hfits
      have hi := List.getElem?_eq_getElem hdst
      have hj := List.getElem?_eq_getElem hsrc
      obtain ⟨p, hp, hinto⟩ := forall₂_getElem? h hi
      obtain ⟨q, hq, hout⟩ := forall₂_getElem? h hj
      obtain ⟨hn, hfilled, hdrained⟩ := hinto.consume hout rfl
      rw [perform?, perform, Ring.consumeAt, if_neg hne, hi, hj]
      refine ⟨?_, _, ?_, forall₂_set (forall₂_set h hfilled dst) hdrained src⟩
      · simp only [Ring.consume?_eq hinto.valid hout.valid]
        rfl
      · simp only [hn]
        exact .consume hne hp hq rfl
  · obtain ⟨hchecked, hsame⟩ := perform_void hfits
    rw [hsame]
    rw [h.length_eq] at hfits
    exact ⟨hchecked, queues, .void hfits, h⟩

theorem run_step (h : List.Forall₂ Ring.Holds rings queues) (commands : List Command) :
    run? rings commands = some (run rings commands) ∧
    ∃ last, Queues.Steps queues commands (run rings commands).1 last ∧
      List.Forall₂ Ring.Holds (run rings commands).2 last := by
  induction commands generalizing rings queues with
  | nil => exact ⟨rfl, queues, .nil queues, h⟩
  | cons command commands ih =>
    obtain ⟨hchecked, next, hstep, hnext⟩ := perform_step h command
    obtain ⟨hrun, last, hsteps, hlast⟩ := ih hnext
    refine ⟨?_, last, .cons hstep hsteps, hlast⟩
    simp only [run?, hchecked, hrun, Option.bind_eq_bind, Option.bind_some]
    rfl

end Rings

structure Ring.Shows (r : Ring) (q : Queue) : Prop where
  capacity : r.capacity = q.capacity
  stored : r.size = q.contents.length
  room : r.free? = some r.free ∧ r.size + r.free = r.capacity
  runs : r.slices? = some r.slices ∧ r.slices.1 ++ r.slices.2 = q.contents
  front : r.isEmpty = false → r.slices.1 ≠ []

theorem Ring.Holds.shows {r : Ring} {q : Queue} (h : r.Holds q) : r.Shows q where
  capacity := h.capacity_eq
  stored := h.size_eq
  room := ⟨h.valid.free?_eq, h.size_add_free⟩
  runs := ⟨h.valid.slices?_eq, h.toList_eq⟩
  front := by
    intro hfilled
    apply h.front_ne_nil
    intro hempty
    have hsize := h.size_eq
    rw [hempty] at hsize
    rw [isEmpty, hsize] at hfilled
    cases hfilled

/-- New rings of any capacities are bounded queues under any commands, and all that they index, subtract
and divide by is in range. -/
theorem rings_refine_queues (capacities : List Nat) (commands : List Command) :
    ∃ replies rings queues,
      Rings.run? (capacities.map Ring.ofCapacity) commands = some (replies, rings) ∧
      Rings.run (capacities.map Ring.ofCapacity) commands = (replies, rings) ∧
      Queues.Steps (capacities.map Queue.empty) commands replies queues ∧
      List.Forall₂ Ring.Shows rings queues := by
  have hnew : List.Forall₂ Ring.Holds (capacities.map Ring.ofCapacity) (capacities.map Queue.empty) := by
    rw [List.forall₂_map_left_iff, List.forall₂_map_right_iff, List.forall₂_same]
    intro n _
    exact Ring.holds_ofCapacity n
  obtain ⟨hrun, queues, hsteps, hheld⟩ := Rings.run_step hnew commands
  exact ⟨_, _, queues, hrun, rfl, hsteps, hheld.imp fun _ _ h ↦ h.shows⟩

example : (Rings.run [.ofCapacity 8, .ofCapacity 4] [.ask 0 (.write [1, 2, 3, 4, 5, 6]), .consume 1 0,
    .ask 1 (.read [0, 0, 0, 0]), .ask 0 .contiguous]).1 =
    [.count 6, .count 4, .filled 4 [1, 2, 3, 4], .run [5, 6]] := by decide

end GameHost
