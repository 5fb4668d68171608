import GameHost.Proofs.Wire.Grammar

namespace GameHost

def firstFault (checks : List (Bool × DecodeFault)) : Option DecodeFault :=
  (checks.find? fun check ↦ !check.1).map Prod.snd

theorem firstFault_eq_none {checks : List (Bool × DecodeFault)} :
    firstFault checks = none ↔ ∀ check ∈ checks, check.1 = true := by
  simp [firstFault]

def checked {α : Type} (checks : List (Bool × DecodeFault)) (after : Except DecodeFault α) :
    Except DecodeFault α :=
  match firstFault checks with
  | some fault => .error fault
  | none => after

section checked

variable {α β : Type} {checks : List (Bool × DecodeFault)} {after : Except DecodeFault α}

theorem checked_nil : checked [] after = after := rfl

theorem checked_cons (holds : Bool) (fault : DecodeFault) :
    checked ((holds, fault) :: checks) after = if holds then checked checks after else .error fault := by
  cases holds <;> simp [checked, firstFault]

theorem throw_bind (fault : DecodeFault) (f : β → Except DecodeFault α) :
    (throw fault >>= f) = .error fault := rfl

theorem checked_eq_ok {a : α} :
    checked checks after = .ok a ↔ (∀ check ∈ checks, check.1 = true) ∧ after = .ok a := by
  rw [checked, ← firstFault_eq_none]
  cases firstFault checks <;> simp

theorem checked_eq_error {fault : DecodeFault} : checked checks after = .error fault ↔
    firstFault checks = some fault ∨ ((∀ check ∈ checks, check.1 = true) ∧ after = .error fault) := by
  rw [checked, ← firstFault_eq_none]
  cases firstFault checks <;> simp

end checked

namespace Schema

variable (s : Schema) (data : Bytes)

def topChecks : List (Bool × DecodeFault) :=
  [(decide (s.topOverhead + 1 ≤ data.length), .truncated),
    (decide (data.head? = some frontGuard), .badGuard),
    (decide (s.topOverhead + 1 ≤ Header.declaredLen data), .badLength),
    (decide (Header.declaredLen data ≤ data.length), .truncated),
    (decide (data[Header.declaredLen data - 1]? = some rearGuard), .badGuard)]

def nestedLen (data : Bytes) : Nat := Bytes.ofLE (data.take lengthWidth)

def nestedChecks : List (Bool × DecodeFault) :=
  [(decide (lengthWidth ≤ data.length), .truncated),
    (decide (lengthWidth + nestedLen data ≤ data.length), .truncated),
    (decide (s.flagWidth.bytes ≤ nestedLen data), .badLength)]

def topFlags : Nat := Bytes.ofLE ((data.drop headerLen).take s.flagWidth.bytes)

def nestedFlags : Nat := Bytes.ofLE ((data.drop lengthWidth).take s.flagWidth.bytes)

def topRegion : Bytes := (data.take (Header.declaredLen data - 1)).drop s.topOverhead

def nestedRegion : Bytes := (data.take (lengthWidth + nestedLen data)).drop s.nestedOverhead

/-- Reads the fields at the front of `body` into a view. -/
def viewOf (header : Option Header) (flags : Nat) (body : Bytes) : Except DecodeFault View := do
  let (slots, _) ← Slot.listOfBytes flags 0 s.fields body
  return ⟨header, flags, slots⟩

theorem topChecks_hold : (∀ check ∈ s.topChecks data, check.1 = true) ↔
    s.topOverhead + 1 ≤ data.length ∧ data.head? = some frontGuard ∧
    s.topOverhead + 1 ≤ Header.declaredLen data ∧ Header.declaredLen data ≤ data.length ∧
    data[Header.declaredLen data - 1]? = some rearGuard := by
  simp [topChecks]

theorem nestedChecks_hold : (∀ check ∈ s.nestedChecks data, check.1 = true) ↔
    lengthWidth ≤ data.length ∧ lengthWidth + nestedLen data ≤ data.length ∧
    s.flagWidth.bytes ≤ nestedLen data := by
  simp [nestedChecks]

theorem head_eq_iff (data : Bytes) : data.headD 0 = frontGuard ↔ data.head? = some frontGuard := by
  cases data with
  | nil => simp [frontGuard]
  | cons b bs => simp

theorem rear_eq_iff (data : Bytes) (i : Nat) :
    data.getD i 0 = rearGuard ↔ data[i]? = some rearGuard := by
  rw [List.getD_eq_getElem?_getD]
  cases data[i]? with
  | none => simp [rearGuard]
  | some b => simp

theorem decodeTop?_eq : s.decodeTop? data =
    checked (s.topChecks data) (s.viewOf (some (Header.ofBytes data)) (s.topFlags data) (s.topRegion data)) := by
  simp only [topChecks, checked_cons, checked_nil, decide_eq_true_eq, ← head_eq_iff, ← rear_eq_iff,
    ← Nat.not_lt, ite_not]
  unfold decodeTop?
  simp only [throw_bind, ne_eq, ite_not]
  rfl

theorem decodeNested?_eq : s.decodeNested? data =
    checked (s.nestedChecks data) (s.viewOf none (s.nestedFlags data) (s.nestedRegion data)) := by
  simp only [nestedChecks, checked_cons, checked_nil, decide_eq_true_eq, ← Nat.not_lt, ite_not]
  unfold decodeNested?
  simp only [throw_bind]
  rfl

end Schema

namespace Header

theorem declaredLen_toBytes (h : Header) {n : Nat} (hn : n ≤ maxPacketSize) (rest : Bytes) :
    declaredLen (h.toBytes n ++ rest) = n := by
  have hd : ((h.toBytes n ++ rest).drop 1).take 2 = Bytes.toLE 2 n := by simp [toBytes, Bytes.toLE]
  rw [declaredLen, hd]
  exact Bytes.ofLE_toLE_of_lt (Nat.lt_succ_of_le hn)

theorem toLE_word (ws : Bytes) (h : ws.length = 4) :
    Bytes.toLE 4 (UInt32.ofNat (Bytes.ofLE ws)).toNat = ws := by
  have hlt := Bytes.ofLE_lt ws
  rw [h] at hlt
  rw [UInt32.toNat_ofNat_of_lt' hlt, ← h, Bytes.toLE_ofLE]

theorem toBytes_ofBytes {bs : Bytes} (hl : headerLen ≤ bs.length) (hf : bs.head? = some frontGuard) :
    (ofBytes bs).toBytes (declaredLen bs) = bs.take headerLen := by
  match bs, hl with
  | b₀ :: b₁ :: b₂ :: kind :: flags :: o₁ :: o₂ :: o₃ :: o₄ :: t₁ :: t₂ :: t₃ :: t₄ :: rest, _ =>
    have hlen : Bytes.toLE 2 (Bytes.ofLE [b₁, b₂]) = [b₁, b₂] := Bytes.toLE_ofLE [b₁, b₂]
    have howner := toLE_word [o₁, o₂, o₃, o₄] rfl
    have htick := toLE_word [t₁, t₂, t₃, t₄] rfl
    have hguard : b₀ = frontGuard := by simpa using hf
    simp [ofBytes, toBytes, declaredLen, headerLen, hlen, howner, htick, hguard, -UInt32.toNat_ofNat']

end Header

def Schema.sample : Schema :=
  ⟨.one, [⟨.uint16, 1⟩, ⟨.memoryBlock, 1⟩, ⟨.packet, 2⟩], by decide, by decide⟩

end GameHost
