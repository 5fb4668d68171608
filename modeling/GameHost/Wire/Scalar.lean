import GameHost.Bytes

namespace GameHost

class Scalar (α : Type) where
  width : Nat
  toBytes : α → Bytes
  ofBytes : Bytes → α
  length_toBytes (a : α) : (toBytes a).length = width
  ofBytes_toBytes (a : α) : ofBytes (toBytes a) = a

namespace Scalar

@[reducible] def ofWord {α : Type} (w : Nat) (toNat : α → Nat) (ofNat : Nat → α)
    (toNat_lt : ∀ a, toNat a < Bytes.limit w) (ofNat_toNat : ∀ a, ofNat (toNat a) = a) : Scalar α where
  width := w
  toBytes a := Bytes.toLE w (toNat a)
  ofBytes bs := ofNat (Bytes.ofLE bs)
  length_toBytes a := Bytes.length_toLE w (toNat a)
  ofBytes_toBytes a := by rw [Bytes.ofLE_toLE_of_lt (toNat_lt a), ofNat_toNat]

instance : Scalar UInt8 := ofWord 1 UInt8.toNat UInt8.ofNat (fun a ↦ a.toNat_lt) fun _ ↦ UInt8.ofNat_toNat
instance : Scalar UInt16 := ofWord 2 UInt16.toNat UInt16.ofNat (fun a ↦ a.toNat_lt) fun _ ↦ UInt16.ofNat_toNat
instance : Scalar UInt32 := ofWord 4 UInt32.toNat UInt32.ofNat (fun a ↦ a.toNat_lt) fun _ ↦ UInt32.ofNat_toNat
instance : Scalar UInt64 := ofWord 8 UInt64.toNat UInt64.ofNat (fun a ↦ a.toNat_lt) fun _ ↦ UInt64.ofNat_toNat

instance : Scalar Int8 := ofWord 1 (·.toUInt8.toNat) (UInt8.toInt8 ∘ UInt8.ofNat)
  (fun a ↦ a.toUInt8.toNat_lt) fun _ ↦ by simp
instance : Scalar Int16 := ofWord 2 (·.toUInt16.toNat) (UInt16.toInt16 ∘ UInt16.ofNat)
  (fun a ↦ a.toUInt16.toNat_lt) fun _ ↦ by simp
instance : Scalar Int32 := ofWord 4 (·.toUInt32.toNat) (UInt32.toInt32 ∘ UInt32.ofNat)
  (fun a ↦ a.toUInt32.toNat_lt) fun _ ↦ by simp
instance : Scalar Int64 := ofWord 8 (·.toUInt64.toNat) (UInt64.toInt64 ∘ UInt64.ofNat)
  (fun a ↦ a.toUInt64.toNat_lt) fun _ ↦ by simp

end Scalar

/-- A single-precision float, known by its bit pattern only. -/
structure Float32Bits where
  bits : UInt32
  deriving DecidableEq, Repr

instance : Scalar Float32Bits := Scalar.ofWord 4 (·.bits.toNat) (fun n ↦ ⟨.ofNat n⟩)
  (fun a ↦ a.bits.toNat_lt) fun a ↦ by simp

structure Triple (α : Type) where
  x : α
  y : α
  z : α
  deriving DecidableEq, Repr

instance {α : Type} [Scalar α] : Scalar (Triple α) where
  width := 3 * Scalar.width α
  toBytes t := Scalar.toBytes t.x ++ (Scalar.toBytes t.y ++ Scalar.toBytes t.z)
  ofBytes bs :=
    let w := Scalar.width α
    ⟨Scalar.ofBytes (bs.take w), Scalar.ofBytes ((bs.drop w).take w), Scalar.ofBytes ((bs.drop w).drop w)⟩
  length_toBytes t := by simp [Scalar.length_toBytes]; omega
  ofBytes_toBytes t := by
    have hx := Scalar.length_toBytes t.x
    have hy := Scalar.length_toBytes t.y
    simp [← hx, List.take_left', List.drop_left', hx.trans hy.symm, Scalar.ofBytes_toBytes]

end GameHost
