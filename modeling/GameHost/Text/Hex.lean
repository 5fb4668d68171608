import GameHost.Bytes

namespace GameHost.Bytes

def hexDigits (b : UInt8) : List Char := [Nat.digitChar (b.toNat / 16), Nat.digitChar (b.toNat % 16)]

def hexText (bs : Bytes) : String := String.ofList (bs.flatMap hexDigits)

def hexValue (c : Char) : Nat := "0123456789abcdef".toList.idxOf c

/-- A digit without a partner is left out. -/
def ofHex : List Char → Bytes
  | a :: b :: rest => .ofNat (hexValue a * 16 + hexValue b) :: ofHex rest
  | _ => []

def ofHexText (s : String) : Bytes := ofHex s.toList

end GameHost.Bytes
