import GameHost.Buffer.Pool
import GameHost.Proofs.Wire.Atomicity
import Mathlib.Data.Nat.Notation

namespace GameHost

/-- All buffers on the shelf have the capacity that the pool is made for. -/
structure Pool.Uniform (p : Pool) (capacity : ℕ) : Prop where
  capacity_eq : p.capacity = capacity
  length_eq : ∀ storage ∈ p.shelf, storage.length = capacity

namespace Pool.Uniform

variable {p : Pool} {capacity : ℕ}

theorem ofCount (count capacity : ℕ) : (ofCount count capacity).Uniform capacity where
  capacity_eq := rfl
  length_eq storage hstorage := by rw [List.eq_of_mem_replicate hstorage, List.length_replicate]

theorem acquire (h : p.Uniform capacity) : ∃ storage pool, p.acquire = (⟨storage, 0⟩, pool) ∧
    storage.length = capacity ∧ pool.Uniform capacity := by
  obtain ⟨hcapacity, hlength⟩ := h
  cases hshelf : p.shelf with
  | nil => exact ⟨_, p, by rw [Pool.acquire, hshelf], by rw [List.length_replicate, hcapacity], hcapacity, hlength⟩
  | cons storage shelf =>
    rw [hshelf, List.forall_mem_cons] at hlength
    exact ⟨storage, { p with shelf }, by rw [Pool.acquire, hshelf], hlength.1, hcapacity, hlength.2⟩

theorem giveBack (h : p.Uniform capacity) {b : PoolBuffer} (hb : b.storage.length = capacity) :
    (p.giveBack b).Uniform capacity := by
  rw [Pool.giveBack]
  split
  · exact ⟨h.capacity_eq, List.forall_mem_cons.mpr ⟨hb, h.length_eq⟩⟩
  · exact h

end Pool.Uniform

namespace Pool

variable (p : Pool)

/-- What a handle on a pool knows; the shelf is shared by all handles and loans. -/
structure Terms where
  capacity : ℕ
  keep : ℕ

def terms : Terms := ⟨p.capacity, p.keep⟩

def Terms.over (t : Terms) (shelf : List Bytes) : Pool := ⟨t.capacity, t.keep, shelf⟩

theorem shelf_acquire : p.acquire.2.shelf = p.shelf.tail := by
  rw [acquire]
  cases hshelf : p.shelf with
  | nil => exact hshelf
  | cons storage shelf => rfl

theorem length_shelf_giveBack (b : PoolBuffer) (h : p.shelf.length ≤ p.keep) :
    (p.giveBack b).shelf.length = min (p.shelf.length + 1) p.keep := by
  rw [giveBack]
  split
  · rw [List.length_cons]
    omega
  · omega

end Pool

namespace PoolBuffer

variable {b : PoolBuffer} {capacity : ℕ}

def write (b : PoolBuffer) (i : ℕ) (src : Bytes) : PoolBuffer :=
  if i + src.length ≤ b.capacity then { b with storage := b.storage.overwrite i src } else b

structure Fits (b : PoolBuffer) (capacity : ℕ) : Prop where
  capacity_eq : b.capacity = capacity
  size_le : b.size ≤ capacity

theorem Fits.setSize (h : b.Fits capacity) (n : ℕ) : (b.setSize n).Fits capacity :=
  ⟨h.capacity_eq, h.capacity_eq ▸ Nat.min_le_right n b.capacity⟩

theorem Fits.write (h : b.Fits capacity) (i : ℕ) (src : Bytes) : (b.write i src).Fits capacity := by
  rw [PoolBuffer.write]
  split
  · next hroom => exact ⟨(Bytes.length_overwrite hroom).trans h.capacity_eq, h.size_le⟩
  · exact h

/-- The result of encoding into a buffer that may have been used before is that of encoding into a new one: as long as
there is room for it, it has the same bytes, and a failure leaves what the buffer shows. -/
structure Renewed (b : PoolBuffer) (encode : Bytes → Except Error ℕ × Bytes) (r : Except Error Unit × PoolBuffer) :
    Prop where
  outcome : r.1 = (encode (List.replicate b.capacity 0)).1.map fun _ ↦ ()
  ok : r.1 = .ok () → ∃ n ≤ b.capacity, ∀ room, n ≤ room →
    ∃ out, encode (List.replicate room 0) = (.ok n, out) ∧ r.2.contents = out.take n
  error (e : Error) : r.1 = .error e → r.2.contents = b.contents

end PoolBuffer

namespace Message.Atomic

variable {m : Message} {front back limit : ℕ} {size : Except Error ℕ} {encode : Bytes → Except Error ℕ × Bytes}
  {checked : Bytes → Option (Except Error ℕ × Bytes)}

/-- What is written is the same in all buffers with room for it, and what keeps a message from being written is the
same in all buffers of one length. -/
theorem written_or_kept (h : m.Atomic front back limit size encode checked) (buf : Bytes) :
    (∃ bs : Bytes, bs.length ≤ buf.length ∧ ∀ buf' : Bytes, bs.length ≤ buf'.length →
      encode buf' = (.ok bs.length, bs ++ buf'.drop bs.length)) ∨
    ∃ e, ∀ buf' : Bytes, buf'.length = buf.length → encode buf' = (.error e, buf') := by
  cases hout : (encode buf).1 with
  | ok n =>
    obtain ⟨hsize, hlimit, hroom⟩ := (h.succeeds buf n).mp hout
    obtain ⟨bs, rfl, hwritten⟩ := h.written n hsize hlimit
    refine .inl ⟨bs, hroom, fun buf' hroom' ↦ ?_⟩
    exact Prod.ext ((h.succeeds buf' _).mpr ⟨hsize, hlimit, hroom'⟩) (hwritten buf' hroom')
  | error e =>
    refine .inr ⟨e, fun buf' hlength ↦ ?_⟩
    have hfails : (encode buf').1 = .error e := (h.fails buf' e).mpr (hlength ▸ (h.fails buf e).mp hout)
    exact Prod.ext hfails (h.kept buf' e hfails)

theorem fits (h : m.Atomic front back limit size encode checked) {b : PoolBuffer} {capacity : ℕ}
    (hb : b.Fits capacity) : (b.afterEncoding (encode b.storage)).2.Fits capacity := by
  have hcapacity : b.storage.length = capacity := hb.capacity_eq
  rcases h.written_or_kept b.storage with ⟨bs, hroom, hwritten⟩ | ⟨e, hkept⟩
  · rw [hwritten _ hroom]
    refine ⟨?_, hcapacity ▸ hroom⟩
    rw [PoolBuffer.afterEncoding, PoolBuffer.capacity, List.length_append, List.length_drop]
    omega
  · rw [hkept _ rfl]
    exact hb

theorem renewed (h : m.Atomic front back limit size encode checked) (b : PoolBuffer) :
    b.Renewed encode (b.afterEncoding (encode b.storage)) := by
  have hfresh : (List.replicate b.capacity (0 : UInt8)).length = b.storage.length := List.length_replicate
  rcases h.written_or_kept b.storage with ⟨bs, hroom, hwritten⟩ | ⟨e, hkept⟩
  · rw [hwritten _ hroom]
    refine ⟨?_, ?_, fun e he ↦ ?_⟩
    · rw [hwritten _ (hfresh ▸ hroom)]
      rfl
    · intro _
      refine ⟨bs.length, hroom, fun room hbs ↦ ?_⟩
      refine ⟨_, hwritten _ (by rwa [List.length_replicate]), ?_⟩
      rw [PoolBuffer.afterEncoding, PoolBuffer.contents, List.take_left, List.take_left]
    · cases he
  · rw [hkept _ rfl]
    refine ⟨?_, fun hok ↦ ?_, fun _ _ ↦ rfl⟩
    · rw [hkept _ hfresh]
      rfl
    · cases hok

end Message.Atomic

/-- A handle gave the buffer away on its terms; the buffer may outlive the handle. -/
structure Loan where
  terms : Pool.Terms
  buffer : PoolBuffer

structure Lending where
  shelf : List Bytes
  handles : List Pool.Terms
  loans : List Loan

namespace Lending

inductive Act
  | acquire (handle : ℕ)
  | clone (handle : ℕ)
  | close (handle : ℕ)
  | giveBack (loan : ℕ)
  | setSize (loan n : ℕ)
  | write (loan i : ℕ) (src : Bytes)
  | encodeTop (loan : ℕ) (m : Message) (h : Header)
  | encodeNested (loan : ℕ) (m : Message)

def start (p : Pool) : Lending := ⟨p.shelf, [p.terms], []⟩

variable (l : Lending)

def available : ℕ := l.shelf.length

def next (t : Pool.Terms) : PoolBuffer := (t.over l.shelf).acquire.1

def onLoan (j : ℕ) (f : PoolBuffer → PoolBuffer) : Lending :=
  match l.loans[j]? with
  | none => l
  | some loan => { l with loans := l.loans.set j { loan with buffer := f loan.buffer } }

def perform : Act → Lending
  | .acquire i => match l.handles[i]? with
    | none => l
    | some t => { l with shelf := (t.over l.shelf).acquire.2.shelf, loans := l.loans ++ [⟨t, l.next t⟩] }
  | .clone i => { l with handles := l.handles ++ l.handles[i]?.toList }
  | .close i => { l with handles := l.handles.eraseIdx i }
  | .giveBack j => match l.loans[j]? with
    | none => l
    | some loan =>
      { l with shelf := ((loan.terms.over l.shelf).giveBack loan.buffer).shelf, loans := l.loans.eraseIdx j }
  | .setSize j n => l.onLoan j (·.setSize n)
  | .write j i src => l.onLoan j (·.write i src)
  | .encodeTop j m h => l.onLoan j fun b ↦ (b.encodeTop m h).2
  | .encodeNested j m => l.onLoan j fun b ↦ (b.encodeNested m).2

def run (acts : List Act) : Lending := acts.foldl perform l

/-- All of one pool, with no buffer lost and none too many on its shelf. -/
structure Sound (count capacity : ℕ) : Prop where
  uniform : (Pool.Terms.over ⟨capacity, count⟩ l.shelf).Uniform capacity
  available_le : l.available ≤ count
  le_available_add : count ≤ l.available + l.loans.length
  handles : ∀ t ∈ l.handles, t = ⟨capacity, count⟩
  loans : ∀ loan ∈ l.loans, loan.terms = ⟨capacity, count⟩ ∧ loan.buffer.Fits capacity

namespace Sound

variable {l : Lending} {count capacity : ℕ}

theorem start (count capacity : ℕ) : (start (.ofCount count capacity)).Sound count capacity where
  uniform := .ofCount count capacity
  available_le := Nat.le_of_eq List.length_replicate
  le_available_add := Nat.le_of_eq List.length_replicate.symm
  handles _ ht := List.mem_singleton.mp ht
  loans _ hloan := absurd hloan List.not_mem_nil

theorem onLoan (h : l.Sound count capacity) (j : ℕ) {f : PoolBuffer → PoolBuffer}
    (hf : ∀ b : PoolBuffer, b.Fits capacity → (f b).Fits capacity) : (l.onLoan j f).Sound count capacity := by
  rw [Lending.onLoan]
  split
  · exact h
  · next loan hloan =>
    have hold := h.loans loan (List.mem_of_getElem? hloan)
    refine ⟨h.uniform, h.available_le, ?_, h.handles, ?_⟩
    · rw [List.length_set]
      exact h.le_available_add
    · intro other hother
      rcases List.mem_or_eq_of_mem_set hother with hother | rfl
      · exact h.loans other hother
      · exact ⟨hold.1, hf _ hold.2⟩

theorem acquire (h : l.Sound count capacity) (i : ℕ) : (l.perform (.acquire i)).Sound count capacity := by
  rw [perform]
  split
  · exact h
  · next t ht =>
    obtain rfl := h.handles t (List.mem_of_getElem? ht)
    obtain ⟨storage, pool, hacquire, hstorage, huniform⟩ := h.uniform.acquire
    have hshelf := Pool.shelf_acquire (Pool.Terms.over ⟨capacity, count⟩ l.shelf)
    rw [Lending.next, hacquire]
    rw [hacquire] at hshelf
    have hlength : pool.shelf.length = l.shelf.length - 1 := (congrArg List.length hshelf).trans List.length_tail
    have hroom := h.available_le
    have hheld := h.le_available_add
    rw [available] at hroom hheld
    refine ⟨⟨rfl, huniform.length_eq⟩, ?_, ?_, h.handles, ?_⟩
    · rw [available, hlength]
      omega
    · rw [available, hlength, List.length_append, List.length_singleton]
      omega
    · intro loan hloan
      rcases List.mem_append.mp hloan with hloan | hloan
      · exact h.loans loan hloan
      · rw [List.mem_singleton.mp hloan]
        exact ⟨rfl, hstorage, Nat.zero_le capacity⟩

theorem giveBack (h : l.Sound count capacity) (j : ℕ) : (l.perform (.giveBack j)).Sound count capacity := by
  rw [perform]
  split
  · exact h
  · next loan hloan =>
    obtain ⟨hterms, hfits⟩ := h.loans loan (List.mem_of_getElem? hloan)
    have hj : j < l.loans.length := (List.getElem?_eq_some_iff.mp hloan).1
    have hlength := Pool.length_shelf_giveBack (Pool.Terms.over ⟨capacity, count⟩ l.shelf) loan.buffer h.available_le
    have hheld := h.le_available_add
    rw [available] at hheld
    rw [hterms]
    refine ⟨⟨rfl, (h.uniform.giveBack hfits.capacity_eq).length_eq⟩, ?_, ?_, h.handles, ?_⟩
    · rw [available, hlength]
      exact Nat.min_le_right ..
    · rw [available, hlength, List.length_eraseIdx_of_lt hj]
      change count ≤ min (l.shelf.length + 1) count + (l.loans.length - 1)
      omega
    · intro other hother
      exact h.loans other (List.mem_of_mem_eraseIdx hother)

theorem perform (h : l.Sound count capacity) (act : Act) : (l.perform act).Sound count capacity := by
  cases act with
  | acquire i => exact h.acquire i
  | clone i =>
    refine ⟨h.uniform, h.available_le, h.le_available_add, ?_, h.loans⟩
    intro t ht
    rcases List.mem_append.mp ht with ht | ht
    · exact h.handles t ht
    · exact h.handles t (List.mem_of_getElem? (Option.mem_toList.mp ht))
  | close i =>
    refine ⟨h.uniform, h.available_le, h.le_available_add, ?_, h.loans⟩
    intro t ht
    exact h.handles t (List.mem_of_mem_eraseIdx ht)
  | giveBack j => exact h.giveBack j
  | setSize j n => exact h.onLoan j fun b hb ↦ hb.setSize n
  | write j i src => exact h.onLoan j fun b hb ↦ hb.write i src
  | encodeTop j m header => exact h.onLoan j fun b hb ↦ (m.atomic_encodeTop header).fits hb
  | encodeNested j m => exact h.onLoan j fun b hb ↦ m.atomic_encodeNested.fits hb

theorem run (h : l.Sound count capacity) (acts : List Act) : (l.run acts).Sound count capacity := by
  induction acts generalizing l with
  | nil => exact h
  | cons act acts ih => exact ih (h.perform act)

theorem next (h : l.Sound count capacity) {t : Pool.Terms} (ht : t ∈ l.handles) :
    (l.next t).capacity = capacity ∧ (l.next t).contents = [] := by
  obtain rfl := h.handles t ht
  obtain ⟨storage, pool, hacquire, hstorage, -⟩ := h.uniform.acquire
  rw [Lending.next, hacquire]
  exact ⟨hstorage, List.take_zero⟩

end Sound

/-- What can be seen of a pool in use that was made for `count` buffers of some capacity. -/
structure Conserved (count capacity : ℕ) : Prop where
  available_le : l.available ≤ count
  le_available_add : count ≤ l.available + l.loans.length
  next : ∀ t ∈ l.handles, (l.next t).capacity = capacity ∧ (l.next t).contents = []
  loans : ∀ loan ∈ l.loans, loan.buffer.capacity = capacity ∧ loan.buffer.size ≤ loan.buffer.capacity
  encodeTop : ∀ loan ∈ l.loans, ∀ (m : Message) (h : Header),
    loan.buffer.Renewed (m.encodeTop h) (loan.buffer.encodeTop m h)
  encodeNested : ∀ loan ∈ l.loans, ∀ m : Message,
    loan.buffer.Renewed m.encodeNested (loan.buffer.encodeNested m)

end Lending

/-- Whatever is done with the handles on a pool and with its buffers, and in whatever order: the shelf and the loans
have the buffers that the pool was made for, the shelf has no others, all buffers are of one capacity and are handed out
empty, and an encoder finds no trace of what was written before. -/
theorem lending_conserved (count capacity : ℕ) (acts : List Lending.Act) :
    ((Lending.start (.ofCount count capacity)).run acts).Conserved count capacity := by
  have hsound := (Lending.Sound.start count capacity).run acts
  refine ⟨hsound.available_le, hsound.le_available_add, fun _ ↦ hsound.next, ?_, ?_, ?_⟩
  · intro loan hloan
    obtain ⟨-, hcapacity, hsize⟩ := hsound.loans loan hloan
    exact ⟨hcapacity, hcapacity ▸ hsize⟩
  · intro loan _ m h
    exact (m.atomic_encodeTop h).renewed loan.buffer
  · intro loan _ m
    exact m.atomic_encodeNested.renewed loan.buffer

example : ((Lending.start (.ofCount 1 16)).run
    [.acquire 0, .acquire 0, .close 0, .giveBack 0, .giveBack 0]).available = 1 := by decide

end GameHost
