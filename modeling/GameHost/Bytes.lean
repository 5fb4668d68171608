namespace GameHost

abbrev Bytes := List UInt8

namespace Bytes

/-- The `w` lowest bytes of `n`, least significant first. -/
def toLE : Nat → Nat → Bytes
  | 0, _ => []
  | w + 1, n => UInt8.ofNat n :: toLE w (n / 256)

/-- The least number that `w` bytes cannot hold. -/
def limit : Nat → Nat
  | 0 => 1
  | w + 1 => 256 * limit w

def ofLE : Bytes → Nat
  | [] => 0
  | b :: bs => b.toNat + 256 * ofLE bs

@[simp] theorem length_toLE (w n : Nat) : (toLE w n).length = w := by
  induction w generalizing n with
  | zero => rfl
  | succ w ih => simp [toLE, ih]

theorem ofLE_toLE (w n : Nat) : ofLE (toLE w n) = n % limit w := by
  induction w generalizing n with
  | zero => simp [toLE, ofLE, limit, Nat.mod_one]
  | succ w ih =>
    have hb : (UInt8.ofNat n).toNat = n % 256 := UInt8.toNat_ofNat'
    rw [toLE, ofLE, ih, hb, limit, Nat.mod_mul]

theorem ofLE_toLE_of_lt {w n : Nat} (h : n < limit w) : ofLE (toLE w n) = n := by
  rw [ofLE_toLE, Nat.mod_eq_of_lt h]

theorem ofLE_lt (bs : Bytes) : ofLE bs < limit bs.length := by
  induction bs with
  | nil => simp [ofLE, limit]
  | cons b bs ih =>
    have hb : b.toNat < 256 := b.toNat_lt
    rw [ofLE, List.length_cons, limit]
    omega

theorem toLE_ofLE (bs : Bytes) : toLE bs.length (ofLE bs) = bs := by
  induction bs with
  | nil => rfl
  | cons b bs ih =>
    have hb : b.toNat < 256 := b.toNat_lt
    have hn : UInt8.ofNat (b.toNat + 256 * ofLE bs) = b := by
      apply UInt8.toNat_inj.mp
      rw [UInt8.toNat_ofNat']
      omega
    have hd : (b.toNat + 256 * ofLE bs) / 256 = ofLE bs := by omega
    rw [List.length_cons, ofLE, toLE, hn, hd, ih]

def overwrite (buf : Bytes) (i : Nat) (src : Bytes) : Bytes :=
  buf.take i ++ src ++ buf.drop (i + src.length)

theorem length_overwrite {buf src : Bytes} {i : Nat} (h : i + src.length ≤ buf.length) :
    (buf.overwrite i src).length = buf.length := by
  simp only [overwrite, List.length_append, List.length_take, List.length_drop]
  omega

def padTo (n : Nat) (bs : Bytes) : Bytes := bs ++ List.replicate (n - bs.length) 0

theorem length_padTo {n : Nat} {bs : Bytes} (h : bs.length ≤ n) : (bs.padTo n).length = n := by
  simp [padTo]
  omega

/-- The text that the bytes spell, if they are well-formed UTF-8. -/
def text? (bs : Bytes) : Option String := String.fromUTF8? ⟨bs.toArray⟩

def ofText (s : String) : Bytes := s.toUTF8.toList

end Bytes
end GameHost
