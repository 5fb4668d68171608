import GameHost.Proofs.Wire.Delivery

namespace GameHost

theorem FieldSpec.fault_cases (spec : FieldSpec) (bs : Bytes) :
    spec.fault bs = .truncated ∨ spec.fault bs = .arrayOverflow := by
  rw [fault]
  split
  · exact .inr rfl
  · exact .inl rfl

theorem Breaks.fault_cases {flags i : Nat} {specs : List FieldSpec} {bs : Bytes} {fault : DecodeFault}
    (h : Breaks flags i specs bs fault) : fault = .truncated ∨ fault = .arrayOverflow := by
  induction h with
  | absent _ _ ih => exact ih
  | @here i spec specs bs _ _ => exact spec.fault_cases bs
  | later _ _ _ ih => exact ih

namespace Frame

variable {stream frame rest : Bytes}

theorem cut_eq_some : cut stream = (.ok (some frame), rest) ↔ step stream = .frame frame rest := by
  rw [cut]
  split
  · next h => simp [h]
  · next h => simp [h]
  · next h => simp [h]

theorem cut_of_cutLast (h : cutLast stream = (.ok (some frame), rest)) :
    cut stream = (.ok (some frame), rest) := by
  rw [cutLast] at h
  split at h
  · split at h <;> cases h
  · exact h

/-- Whatever the framer is asked, a frame comes out of it. -/
inductive Emitted (frame : Bytes) : Prop
  | cut {stream rest : Bytes} (h : Frame.cut stream = (.ok (some frame), rest))
  | cutLast {stream rest : Bytes} (h : Frame.cutLast stream = (.ok (some frame), rest))
  | drained {stream : Bytes} (h : frame ∈ (drain stream).frames)

theorem step_frame (h : step stream = .frame frame rest) : step frame = .frame frame [] := by
  obtain ⟨hlen, hfront, hmin, hwhole, hrear, hframe, -⟩ := step_eq_frame.mp h
  have hfifteen : minLen = 15 := rfl
  have hframeLen : frame.length = Header.declaredLen stream := hframe ▸ List.length_take_of_le hwhole
  have hthree : 3 ≤ frame.length := by omega
  have hsplit := step_rest h
  have hdeclared : Header.declaredLen frame = frame.length := by
    rw [hframeLen, ← hsplit, Header.declaredLen_append hthree]
  rw [step_eq_frame, hdeclared]
  refine ⟨hthree, ?_, by omega, Nat.le_refl _, ?_, List.take_length, List.drop_length⟩
  · rw [← hsplit, head?_append hthree] at hfront
    exact hfront
  · rw [← hframeLen, ← hsplit, List.getElem?_append_left (by omega)] at hrear
    exact hrear

theorem step_of_mem_frames (h : frame ∈ (drain stream).frames) : step frame = .frame frame [] := by
  induction stream using drain.induct with
  | case1 stream hstep =>
    rw [drain_of_wait hstep] at h
    cases h
  | case2 stream fault hstep =>
    rw [drain_of_lost hstep] at h
    cases h
  | case3 stream first rest hstep ih =>
    rw [drain_of_frame hstep] at h
    rcases List.mem_cons.mp h with rfl | hrest
    · exact step_frame hstep
    · exact ih hrest

theorem Emitted.step (h : Emitted frame) : step frame = .frame frame [] := by
  cases h with
  | cut h => exact step_frame (cut_eq_some.mp h)
  | cutLast h => exact step_frame (cut_eq_some.mp (cut_of_cutLast h))
  | drained h => exact step_of_mem_frames h

theorem Emitted.guarded (h : Emitted frame) : frame.head? = some frontGuard ∧
    Header.declaredLen frame = frame.length ∧ frame[frame.length - 1]? = some rearGuard := by
  obtain ⟨-, hfront, -, hwhole, hrear, -, hrest⟩ := step_eq_frame.mp h.step
  have hlen : Header.declaredLen frame = frame.length := Nat.le_antisymm hwhole (List.drop_eq_nil_iff.mp hrest)
  exact ⟨hfront, hlen, hlen ▸ hrear⟩

end Frame

namespace Schema

variable {s : Schema} {frame : Bytes} {fault : DecodeFault}

/-- What a frame can still lack: bytes for the flag word and the rear guard, or the unit of a present field. -/
inductive Unfit (s : Schema) (frame : Bytes) : DecodeFault → Prop
  | short (hlen : frame.length < s.topOverhead + 1) : Unfit s frame .truncated
  | field {fault : DecodeFault} (hlen : s.topOverhead + 1 ≤ frame.length)
      (breaks : Breaks (s.topFlags frame) 0 s.fields (s.topRegion frame) fault) : Unfit s frame fault

theorem Unfit.fault_cases (h : s.Unfit frame fault) : fault = .truncated ∨ fault = .arrayOverflow := by
  cases h with
  | short => exact .inl rfl
  | field _ breaks => exact breaks.fault_cases

theorem topChecks_of_emitted (h : Frame.Emitted frame) :
    (∀ check ∈ s.topChecks frame, check.1 = true) ↔ s.topOverhead + 1 ≤ frame.length := by
  obtain ⟨hfront, hlen, hrear⟩ := h.guarded
  rw [topChecks_hold, hlen]
  constructor
  · exact fun holds ↦ holds.1
  · exact fun hroom ↦ ⟨hroom, hfront, hroom, Nat.le_refl _, hrear⟩

/-- Of a frame, the decoder asks only whether it is long enough and what its fields hold. -/
theorem decodeTop?_of_emitted (h : Frame.Emitted frame) : s.decodeTop? frame =
    if s.topOverhead + 1 ≤ frame.length then
      s.viewOf (some (Header.ofBytes frame)) (s.topFlags frame) (s.topRegion frame)
    else .error .truncated := by
  rw [decodeTop?_eq]
  split
  · next hroom => rw [checked, firstFault_eq_none.mpr ((topChecks_of_emitted h).mpr hroom)]
  · next hshort =>
    rw [topChecks, checked_cons]
    simp only [hshort, decide_false, Bool.false_eq_true, if_false]

theorem decodeTop_eq_error_of_emitted (h : Frame.Emitted frame) (e : Error) :
    s.decodeTop frame = .error e ↔ ∃ fault, e = .decode fault ∧ s.Unfit frame fault := by
  rw [decodeTop, Except.mapError_eq_error, decodeTop?_of_emitted h]
  refine exists_congr fun fault ↦ ?_
  rw [and_comm, eq_comm]
  refine and_congr_right fun _ ↦ ?_
  split
  · next hroom =>
    rw [viewOf_eq_error]
    constructor
    · exact .field hroom
    · rintro (hshort | ⟨-, breaks⟩)
      · omega
      · exact breaks
  · next hshort =>
    constructor
    · rintro ⟨⟩
      exact .short (Nat.lt_of_not_le hshort)
    · rintro (- | ⟨hroom, -⟩)
      · rfl
      · exact absurd hroom hshort

theorem cut_of_decodeTop {data : Bytes} {d : View} (h : s.decodeTop data = .ok d) :
    Frame.cut data = (.ok (some (data.take (Header.declaredLen data))), data.drop (Header.declaredLen data)) ∧
      s.decodeTop (data.take (Header.declaredLen data)) = .ok d := by
  constructor
  · rw [decodeTop, decodeTop?_eq] at h
    exact Frame.cut_eq_some.mpr (Frame.step_of_topChecks (header_of_checked h).1)
  · rw [← List.append_nil (data.take _)]
    exact (extent_of_decodeTop h).more []

end Schema

/-- Where the decoder accepts a message, the framer cuts off that message and nothing else, and the decoder reads the
same from it. Where the framer cuts something off, the decoder has nothing against its guards and its length; it refuses
it exactly if it is too short for the schema or breaks in its fields. -/
theorem framer_decoder_agree (s : Schema) :
    (∀ data d, s.decodeTop data = .ok d →
      Frame.cut data = (.ok (some (data.take (Header.declaredLen data))), data.drop (Header.declaredLen data)) ∧
        s.decodeTop (data.take (Header.declaredLen data)) = .ok d) ∧
    ∀ frame, Frame.Emitted frame → ∀ e, s.decodeTop frame = .error e ↔
      ∃ fault, e = .decode fault ∧ (fault = .truncated ∨ fault = .arrayOverflow) ∧ s.Unfit frame fault := by
  refine ⟨fun data d ↦ Schema.cut_of_decodeTop, fun frame hframe e ↦ ?_⟩
  rw [Schema.decodeTop_eq_error_of_emitted hframe]
  refine exists_congr fun fault ↦ and_congr_right fun _ ↦ ?_
  constructor
  · exact fun hunfit ↦ ⟨hunfit.fault_cases, hunfit⟩
  · exact fun h ↦ h.2

theorem framer_decoder_agree_loose :
    (∃ d, Schema.sample.decodeTop (loose rearGuard ++ [9]) = .ok d ∧
      Frame.cut (loose rearGuard ++ [9]) = (.ok (some (loose rearGuard)), [9]) ∧
      Schema.sample.decodeTop (loose rearGuard) = .ok d) ∧
    Frame.Emitted Frame.smallest ∧
      (Schema.empty .two).decodeTop Frame.smallest = .error (.decode .truncated) := by
  have htop : Schema.sample.decodeTop (loose rearGuard ++ [9]) =
      .ok ⟨some .blank, 0x85, [.fixed .uint16 [2, 1], .absent, .array 1 [0, 0]]⟩ := rfl
  have hemitted : Frame.Emitted Frame.smallest :=
    .cut (show Frame.cut Frame.smallest = (.ok (some Frame.smallest), []) from rfl)
  have hrefused := (framer_decoder_agree (.empty .two)).2 Frame.smallest hemitted (.decode .truncated)
  exact ⟨⟨_, htop, (framer_decoder_agree Schema.sample).1 _ _ htop⟩, hemitted,
    hrefused.mpr ⟨.truncated, rfl, .inl rfl, .short (by decide)⟩⟩

end GameHost
