import GameHost.Proofs.Wire.Envelope
import GameHost.Wire.Frame

namespace GameHost

theorem Header.declaredLen_append {stream : Bytes} (h : 3 ≤ stream.length) (more : Bytes) :
    declaredLen (stream ++ more) = declaredLen stream := by
  have hlen : 2 ≤ (stream.drop 1).length := by
    rw [List.length_drop]
    omega
  rw [declaredLen, declaredLen, List.drop_append_of_le_length (by omega),
    List.take_append_of_le_length hlen]

namespace Frame

variable {stream frame rest : Bytes} {fault : DecodeFault}

theorem step_eq_wait : step stream = .wait ↔ stream.length < 3 ∨
    (stream.head? = some frontGuard ∧ minLen ≤ Header.declaredLen stream ∧
      stream.length < Header.declaredLen stream) := by
  rw [← Schema.head_eq_iff, step]
  grind

theorem step_eq_lost : step stream = .lost fault ↔ 3 ≤ stream.length ∧
    ((stream.head? ≠ some frontGuard ∧ fault = .badGuard) ∨
      (stream.head? = some frontGuard ∧ Header.declaredLen stream < minLen ∧ fault = .badLength) ∨
      (stream.head? = some frontGuard ∧ minLen ≤ Header.declaredLen stream ∧
        Header.declaredLen stream ≤ stream.length ∧
        stream[Header.declaredLen stream - 1]? ≠ some rearGuard ∧ fault = .badGuard)) := by
  simp only [← Schema.head_eq_iff, ne_eq, ← Schema.rear_eq_iff, step]
  grind

theorem step_eq_frame : step stream = .frame frame rest ↔ 3 ≤ stream.length ∧
    stream.head? = some frontGuard ∧ minLen ≤ Header.declaredLen stream ∧
    Header.declaredLen stream ≤ stream.length ∧
    stream[Header.declaredLen stream - 1]? = some rearGuard ∧
    stream.take (Header.declaredLen stream) = frame ∧
    stream.drop (Header.declaredLen stream) = rest := by
  rw [← Schema.head_eq_iff, ← Schema.rear_eq_iff, step]
  grind

theorem head?_append (h : 3 ≤ stream.length) (more : Bytes) :
    (stream ++ more).head? = stream.head? := by
  cases stream with
  | nil => simp at h
  | cons b bs => rfl

theorem rear_append (hmin : minLen ≤ Header.declaredLen stream)
    (hwhole : Header.declaredLen stream ≤ stream.length) (more : Bytes) :
    (stream ++ more)[Header.declaredLen stream - 1]? = stream[Header.declaredLen stream - 1]? := by
  have hpos : 0 < minLen := by decide
  exact List.getElem?_append_left (by omega)

theorem step_append_frame (h : step stream = .frame frame rest) (more : Bytes) :
    step (stream ++ more) = .frame frame (rest ++ more) := by
  obtain ⟨hlen, hfront, hmin, hwhole, hrear, rfl, rfl⟩ := step_eq_frame.mp h
  rw [step_eq_frame, Header.declaredLen_append hlen, head?_append hlen, rear_append hmin hwhole,
    List.take_append_of_le_length hwhole, List.drop_append_of_le_length hwhole, List.length_append]
  exact ⟨by omega, hfront, hmin, by omega, hrear, rfl, rfl⟩

theorem step_append_lost (h : step stream = .lost fault) (more : Bytes) :
    step (stream ++ more) = .lost fault := by
  obtain ⟨hlen, hcause⟩ := step_eq_lost.mp h
  rw [step_eq_lost, Header.declaredLen_append hlen, head?_append hlen, List.length_append]
  refine ⟨by omega, ?_⟩
  rcases hcause with hfront | hshort | ⟨hfront, hmin, hwhole, hrear, hfault⟩
  · exact .inl hfront
  · exact .inr (.inl hshort)
  · refine .inr (.inr ⟨hfront, hmin, by omega, ?_, hfault⟩)
    rwa [rear_append hmin hwhole]

theorem step_rest (h : step stream = .frame frame rest) : frame ++ rest = stream := by
  obtain ⟨-, -, -, -, -, rfl, rfl⟩ := step_eq_frame.mp h
  exact List.take_append_drop _ stream

theorem drain_of_wait (h : step stream = .wait) : drain stream = ⟨[], stream, none⟩ := by
  rw [drain]
  split <;> simp_all

theorem drain_of_lost (h : step stream = .lost fault) : drain stream = ⟨[], stream, some fault⟩ := by
  rw [drain]
  split <;> simp_all

theorem drain_of_frame (h : step stream = .frame frame rest) :
    drain stream = ⟨frame :: (drain rest).frames, (drain rest).left, (drain rest).fault⟩ := by
  rw [drain]
  split <;> simp_all

namespace Drained

def start : Drained := ⟨[], [], none⟩

/-- Appends a chunk to the bytes that are left and drains them. It does so after a fault as well. -/
def feed (d : Drained) (chunk : Bytes) : Drained :=
  let more := drain (d.left ++ chunk)
  { more with frames := d.frames ++ more.frames }

theorem feed_cons (d : Drained) (chunk : Bytes) :
    (⟨frame :: d.frames, d.left, d.fault⟩ : Drained).feed chunk =
      ⟨frame :: (d.feed chunk).frames, (d.feed chunk).left, (d.feed chunk).fault⟩ := rfl

end Drained

def feedAll (chunks : List Bytes) : Drained := chunks.foldl Drained.feed .start

theorem drain_append (stream more : Bytes) : drain (stream ++ more) = (drain stream).feed more := by
  induction stream using drain.induct with
  | case1 stream h =>
    rw [drain_of_wait h]
    rfl
  | case2 stream fault h =>
    rw [drain_of_lost h]
    rfl
  | case3 stream frame rest h ih =>
    rw [drain_of_frame h, drain_of_frame (step_append_frame h more), Drained.feed_cons, ih]

theorem frames_append_left (stream : Bytes) :
    (drain stream).frames.flatten ++ (drain stream).left = stream := by
  induction stream using drain.induct with
  | case1 stream h => simp [drain_of_wait h]
  | case2 stream fault h => simp [drain_of_lost h]
  | case3 stream frame rest h ih =>
    rw [drain_of_frame h, List.flatten_cons, List.append_assoc, ih, step_rest h]

theorem drain_left_append (h : (drain stream).fault = some fault) (more : Bytes) :
    drain ((drain stream).left ++ more) = ⟨[], (drain stream).left ++ more, some fault⟩ := by
  induction stream using drain.induct with
  | case1 stream hstep =>
    rw [drain_of_wait hstep] at h
    cases h
  | case2 stream found hstep =>
    rw [drain_of_lost hstep, Option.some_inj] at h
    subst h
    rw [drain_of_lost hstep]
    exact drain_of_lost (step_append_lost hstep more)
  | case3 stream frame rest hstep ih =>
    rw [drain_of_frame hstep] at h ⊢
    exact ih h

theorem foldl_feed (stream : Bytes) (chunks : List Bytes) :
    chunks.foldl Drained.feed (drain stream) = drain (stream ++ chunks.flatten) := by
  induction chunks generalizing stream with
  | nil => rw [List.flatten_nil, List.append_nil, List.foldl_nil]
  | cons chunk chunks ih =>
    rw [List.foldl_cons, ← drain_append, ih, List.append_assoc, List.flatten_cons]

theorem feedAll_flatten (chunks : List Bytes) : feedAll chunks = drain chunks.flatten := by
  have hstart : Drained.start = drain [] := (drain_of_wait rfl).symm
  rw [feedAll, hstart, foldl_feed, List.nil_append]

theorem feedAll_append (chunks later : List Bytes) :
    feedAll (chunks ++ later) = (feedAll chunks).feed later.flatten := by
  rw [feedAll_flatten, feedAll_flatten, List.flatten_append, drain_append]

theorem feedAll_of_lost {chunks : List Bytes} (h : (feedAll chunks).fault = some fault)
    (later : List Bytes) : feedAll (chunks ++ later) =
      ⟨(feedAll chunks).frames, (feedAll chunks).left ++ later.flatten, some fault⟩ := by
  rw [feedAll_append, Drained.feed, feedAll_flatten] at *
  rw [drain_left_append h, List.append_nil]

/-- However a stream is cut into chunks, draining after each of them cuts off the frames, leaves the
bytes and ends in the fault that draining the whole stream does. Nothing is lost on the way, frames stay
when a fault comes, and behind a fault there is only this fault. -/
theorem feedAll_eq_drain (chunks : List Bytes) :
    feedAll chunks = drain chunks.flatten ∧
    (feedAll chunks).frames.flatten ++ (feedAll chunks).left = chunks.flatten ∧
    (∀ later, (feedAll chunks).frames <+: (feedAll (chunks ++ later)).frames) ∧
    ∀ fault, (feedAll chunks).fault = some fault → ∀ later, feedAll (chunks ++ later) =
      ⟨(feedAll chunks).frames, (feedAll chunks).left ++ later.flatten, some fault⟩ := by
  refine ⟨feedAll_flatten chunks, ?_, ?_, fun fault h ↦ feedAll_of_lost h⟩
  · rw [feedAll_flatten, frames_append_left]
  · intro later
    rw [feedAll_append]
    exact List.prefix_append ..

def smallest : Bytes := [0xD6, 15, 0, 0, 0, 0, 0, 0, 0, 0, 0, 0, 0, 0, 0x6B]

theorem feedAll_eq_drain_lost :
    feedAll [smallest.take 2, smallest.drop 2 ++ [7], [8, 9]] =
      ⟨[smallest], [7, 8, 9], some .badGuard⟩ ∧
    feedAll ([smallest.take 2, smallest.drop 2 ++ [7], [8, 9]] ++ [[0xD6], [15]]) =
      ⟨[smallest], [7, 8, 9, 0xD6, 15], some .badGuard⟩ := by
  obtain ⟨hwhole, -, -, hlost⟩ :=
    feedAll_eq_drain [smallest.take 2, smallest.drop 2 ++ [7], [8, 9]]
  have hframe : step [smallest.take 2, smallest.drop 2 ++ [7], [8, 9]].flatten =
      .frame smallest [7, 8, 9] := by decide
  have hend : step [7, 8, 9] = .lost .badGuard := by decide
  rw [drain_of_frame hframe, drain_of_lost hend] at hwhole
  have hlater := hlost .badGuard (by rw [hwhole]) [[0xD6], [15]]
  rw [hwhole] at hlater
  exact ⟨hwhole, hlater⟩

end Frame
end GameHost
