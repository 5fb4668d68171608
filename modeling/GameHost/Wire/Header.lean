import GameHost.Bytes
import GameHost.Wire.Schema

namespace GameHost

structure Header where
  kind : UInt8
  flags : UInt8
  owner : UInt32
  tick : UInt32
  deriving DecidableEq, Repr

namespace Header

def blank : Header := ⟨0, 0, 0, 0⟩

def toBytes (h : Header) (total : Nat) : Bytes :=
  frontGuard :: (Bytes.toLE 2 total ++ h.kind :: h.flags ::
    (Bytes.toLE 4 h.owner.toNat ++ Bytes.toLE 4 h.tick.toNat))

theorem length_toBytes (h : Header) (total : Nat) : (h.toBytes total).length = headerLen := by
  simp [toBytes, headerLen]

def declaredLen (bs : Bytes) : Nat := Bytes.ofLE ((bs.drop 1).take 2)

def ofBytes (bs : Bytes) : Header where
  kind := bs.getD 3 0
  flags := bs.getD 4 0
  owner := .ofNat (Bytes.ofLE ((bs.drop 5).take 4))
  tick := .ofNat (Bytes.ofLE ((bs.drop 9).take 4))

theorem ofBytes_toBytes (h : Header) (total : Nat) (rest : Bytes) :
    ofBytes (h.toBytes total ++ rest) = h := by
  have ho : h.owner.toNat < Bytes.limit 4 := h.owner.toNat_lt
  have ht : h.tick.toNat < Bytes.limit 4 := h.tick.toNat_lt
  have eo : UInt32.ofNat (Bytes.ofLE (Bytes.toLE 4 h.owner.toNat)) = h.owner := by
    rw [Bytes.ofLE_toLE_of_lt ho, UInt32.ofNat_toNat]
  have et : UInt32.ofNat (Bytes.ofLE (Bytes.toLE 4 h.tick.toNat)) = h.tick := by
    rw [Bytes.ofLE_toLE_of_lt ht, UInt32.ofNat_toNat]
  cases h
  simp_all [ofBytes, toBytes, Bytes.toLE]

end Header
end GameHost
