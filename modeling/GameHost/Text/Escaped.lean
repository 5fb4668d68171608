import GameHost.Text.Extending
import GameHost.Text.Ignorable
import GameHost.Text.Unprinted

namespace GameHost.Text.Escaped

def encodeChar (c : Char) : List Char :=
  if c = '"' ∨ c = '\\' then ['\\', c]
  else if c = '\n' then ['\\', 'n']
  else if c = '\r' then ['\\', 'r']
  else if c = '\t' then ['\\', 't']
  else if c.toNat = 0 then ['\\', '0']
  else if isExtending c || isIgnorable c || isUnprinted c then
    ['\\', 'u', '\x7b'] ++ Nat.toDigits 16 c.toNat ++ ['\x7d']
  else [c]

def encode (s : String) : String := String.ofList ('"' :: s.toList.flatMap encodeChar ++ ['"'])

def encodeList (ss : List String) : String := "[" ++ ", ".intercalate (ss.map encode) ++ "]"

end GameHost.Text.Escaped
