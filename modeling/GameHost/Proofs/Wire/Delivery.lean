import GameHost.Proofs.Wire.Extent
import GameHost.Proofs.Wire.Framing
import GameHost.Proofs.Wire.RoundTrip

namespace GameHost

theorem FlagWidth.bytes_pos (w : FlagWidth) : 0 < w.bytes := by cases w <;> decide

namespace Frame

variable {s : Schema} {data : Bytes}

theorem minLen_le (s : Schema) : minLen ≤ s.topOverhead + 1 := by
  have hpos := s.flagWidth.bytes_pos
  have hover : s.topOverhead = headerLen + s.flagWidth.bytes := rfl
  have hmin : minLen = headerLen + 1 + 1 := rfl
  omega

theorem step_of_topChecks (h : ∀ check ∈ s.topChecks data, check.1 = true) :
    step data = .frame (data.take (Header.declaredLen data)) (data.drop (Header.declaredLen data)) := by
  obtain ⟨hlen, hfront, hmin, hwhole, hrear⟩ := (s.topChecks_hold data).mp h
  have hshort := minLen_le s
  have hfive : minLen = 15 := rfl
  exact step_eq_frame.mpr ⟨by omega, hfront, by omega, hwhole, hrear, rfl, rfl⟩

/-- As long as such a message is not whole there is nothing to cut off, wherever it breaks off. -/
theorem step_take_of_topChecks (h : ∀ check ∈ s.topChecks data, check.1 = true) {k : Nat}
    (hk : k < Header.declaredLen data) : step (data.take k) = .wait := by
  obtain ⟨hlen, hfront, hmin, hwhole, -⟩ := (s.topChecks_hold data).mp h
  have hshort := minLen_le s
  have hcut : (data.take k).length = k := List.length_take_of_le (by omega)
  rw [step_eq_wait, hcut]
  by_cases hthree : k < 3
  · exact .inl hthree
  · have hdeclared : Header.declaredLen (data.take k) = Header.declaredLen data := by
      have hthree' : 3 ≤ (data.take k).length := by omega
      have happend := Header.declaredLen_append hthree' (data.drop k)
      rw [List.take_append_drop] at happend
      exact happend.symm
    have hhead : (data.take k).head? = some frontGuard := by
      rw [List.head?_take, if_neg (by omega), hfront]
    rw [hdeclared]
    exact .inr ⟨hhead, by omega, hk⟩

end Frame

structure Sent where
  message : Message
  header : Header
  bytes : Bytes
  encodes : ∃ buf n out, message.encodeTop header buf = (.ok n, out) ∧ bytes = out.take n

namespace Sent

variable (x : Sent)

/-- The frame can be read as the message, with the schema of the message. -/
def ReadsAs (frame : Bytes) : Prop :=
  ∃ d, x.message.schema.decodeTop frame = .ok d ∧ d.header = some x.header ∧ d.Carries x.message

theorem readsAs_bytes : x.ReadsAs x.bytes := by
  obtain ⟨buf, n, out, hencode, hbytes⟩ := x.encodes
  obtain ⟨d, hd, hheader, hcarries⟩ := Message.decodeTop_of_encodeTop hencode []
  rw [List.append_nil, ← hbytes] at hd
  exact ⟨d, hd, hheader, hcarries⟩

theorem checks_hold (rest : Bytes) :
    (∀ check ∈ x.message.schema.topChecks (x.bytes ++ rest), check.1 = true) ∧
      Header.declaredLen (x.bytes ++ rest) = x.bytes.length := by
  obtain ⟨buf, n, out, hencode, hbytes⟩ := x.encodes
  obtain ⟨flags, -, hn, hsize, -, rfl⟩ := Message.encodeTop_eq_ok hencode
  rw [take_topForm hn] at hbytes
  rw [hn] at hsize
  rw [hbytes, declaredLen_topForm hsize, length_topForm]
  exact ⟨topChecks_topForm hsize rest, rfl⟩

theorem step_append (rest : Bytes) : Frame.step (x.bytes ++ rest) = .frame x.bytes rest := by
  obtain ⟨hchecks, hlen⟩ := x.checks_hold rest
  rw [Frame.step_of_topChecks hchecks, hlen, List.take_left, List.drop_left]

theorem step_prefix {p : Bytes} (hp : p <+: x.bytes) (hne : p ≠ x.bytes) : Frame.step p = .wait := by
  obtain ⟨hchecks, hlen⟩ := x.checks_hold []
  rw [List.append_nil] at hchecks hlen
  have hshort : p.length < x.bytes.length := by
    refine Nat.lt_of_le_of_ne hp.length_le ?_
    intro hsame
    exact hne (hp.eq_of_length hsame)
  rw [List.prefix_iff_eq_take.mp hp]
  exact Frame.step_take_of_topChecks hchecks (by omega)

end Sent

theorem drain_sent (sent : List Sent) {p : Bytes} (hp : Frame.step p = .wait) :
    Frame.drain ((sent.map Sent.bytes).flatten ++ p) = ⟨sent.map Sent.bytes, p, none⟩ := by
  induction sent with
  | nil => exact Frame.drain_of_wait hp
  | cons x sent ih =>
    rw [List.map_cons, List.flatten_cons, List.append_assoc, Frame.drain_of_frame (x.step_append _), ih]

/-- Messages of any schemas that are sent one after the other arrive, however their stream is cut into
chunks, each as it was sent. The beginning of one more is left to wait, and there is never a fault. -/
theorem delivered (sent : List Sent) (next : Sent) {p : Bytes} (hp : p <+: next.bytes)
    (hne : p ≠ next.bytes) {chunks : List Bytes}
    (hchunks : chunks.flatten = (sent.map Sent.bytes).flatten ++ p) :
    (∀ k, (Frame.feedAll (chunks.take k)).fault = none) ∧
    Frame.feedAll chunks = ⟨sent.map Sent.bytes, p, none⟩ ∧
    List.Forall₂ Sent.ReadsAs sent (Frame.feedAll chunks).frames := by
  have hdrain := drain_sent sent (next.step_prefix hp hne)
  rw [← hchunks, ← Frame.feedAll_flatten] at hdrain
  refine ⟨?_, hdrain, ?_⟩
  · intro k
    cases hfault : (Frame.feedAll (chunks.take k)).fault with
    | none => rfl
    | some fault =>
      -- a fault would have stayed to the end
      have hlost := Frame.feedAll_of_lost hfault (chunks.drop k)
      rw [List.take_append_drop, hdrain] at hlost
      cases congrArg Frame.Drained.fault hlost
  · rw [hdrain, List.forall₂_map_right_iff]
    exact List.forall₂_same.mpr fun x _ ↦ x.readsAs_bytes

namespace Sent

def sample : Sent where
  message := .sample
  header := .blank
  bytes := [0xD6, 20, 0, 0, 0, 0, 0, 0, 0, 0, 0, 0, 0, 5, 2, 1, 1, 0, 0, 0x6B]
  encodes := ⟨List.replicate 20 0, 20,
    [0xD6, 20, 0, 0, 0, 0, 0, 0, 0, 0, 0, 0, 0, 5, 2, 1, 1, 0, 0, 0x6B], by decide, rfl⟩

def smallest : Sent where
  message := .ofSchema (.empty .one)
  header := .blank
  bytes := Frame.smallest
  encodes := ⟨List.replicate 15 0, 15, Frame.smallest, by decide, rfl⟩

end Sent

theorem delivered_sample :
    (∀ k, (Frame.feedAll ([[0xD6, 20], [], Sent.sample.bytes.drop 2 ++ [0xD6],
      Frame.smallest.drop 1 ++ [0xD6, 20]].take k)).fault = none) ∧
    Frame.feedAll [[0xD6, 20], [], Sent.sample.bytes.drop 2 ++ [0xD6],
      Frame.smallest.drop 1 ++ [0xD6, 20]] =
      ⟨[Sent.sample.bytes, Frame.smallest], [0xD6, 20], none⟩ ∧
    List.Forall₂ Sent.ReadsAs [.sample, .smallest]
      (Frame.feedAll [[0xD6, 20], [], Sent.sample.bytes.drop 2 ++ [0xD6],
        Frame.smallest.drop 1 ++ [0xD6, 20]]).frames := by
  have hchunks : [[0xD6, 20], [], Sent.sample.bytes.drop 2 ++ [0xD6],
      Frame.smallest.drop 1 ++ [0xD6, 20]].flatten =
        ([Sent.sample, Sent.smallest].map Sent.bytes).flatten ++ [0xD6, 20] := by decide
  exact delivered [.sample, .smallest] .sample (by decide) (by decide) hchunks

end GameHost
