import ShipBridge.Text.Hidden

/-!
# Quoted text

Text between quotation marks, as diagnostics show it: the quotation mark, the backslash and a few
controls have short escapes, and every other character without a visible form is spelled out by
its number.
-/

namespace ShipBridge.Text

def byNumber (c : Char) : List Char :=
  '\\' :: 'u' :: '\x7b' :: Nat.toDigits 16 c.toNat ++ ['\x7d']

def spell (c : Char) : List Char :=
  if c = '\x00' then ['\\', '0']
  else if c = '\t' then ['\\', 't']
  else if c = '\r' then ['\\', 'r']
  else if c = '\n' then ['\\', 'n']
  else if c = '\\' then ['\\', '\\']
  else if c = '"' then ['\\', '"']
  else if c.toNat < 0x20 || c.toNat == 0x7F then byNumber c
  else if 0x80 ≤ c.toNat && isHidden c then byNumber c
  else [c]

def quoted (s : String) : String :=
  String.ofList ('"' :: s.toList.flatMap spell ++ ['"'])

end ShipBridge.Text
