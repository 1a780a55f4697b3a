/-!
# Hexadecimal digits

Both cases are read; small letters are written unless capitals are asked for.
-/

namespace ShipBridge.Text

def hexValue? (c : Char) : Option Nat :=
  if '0' ≤ c ∧ c ≤ '9' then some (c.toNat - '0'.toNat)
  else if 'a' ≤ c ∧ c ≤ 'f' then some (c.toNat - 'a'.toNat + 10)
  else if 'A' ≤ c ∧ c ≤ 'F' then some (c.toNat - 'A'.toNat + 10)
  else none

def hexDigit (n : Nat) : Char := Nat.digitChar (n % 16)

def hexCapital (n : Nat) : Char := (hexDigit n).toUpper

end ShipBridge.Text
