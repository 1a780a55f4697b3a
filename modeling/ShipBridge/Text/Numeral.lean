/-!
# Numerals

Unsigned decimal numerals with an upper bound. One leading plus sign is allowed; an empty
numeral, any other character, and a value above the bound are each refused with their reason.
-/

namespace ShipBridge.Numeral

inductive Flaw where
  | empty
  | digit
  | overflow
deriving DecidableEq, Repr

def digit? (c : Char) : Option Nat :=
  if '0' ≤ c ∧ c ≤ '9' then some (c.toNat - '0'.toNat) else none

/-- The value of a run of digits read after `n`; reading stops at the first digit that carries
it past `limit`. -/
def readDigits (limit n : Nat) : List Char → Except Flaw Nat
  | [] => .ok n
  | c :: cs => match digit? c with
    | none => .error .digit
    | some d => if n * 10 + d ≤ limit then readDigits limit (n * 10 + d) cs else .error .overflow

def read (limit : Nat) : List Char → Except Flaw Nat
  | [] => .error .empty
  | ['+'] => .error .digit
  | '+' :: cs => readDigits limit 0 cs
  | cs => readDigits limit 0 cs

def maxU64 : Nat := 0xFFFFFFFFFFFFFFFF

def read64? (cs : List Char) : Option Nat := (read maxU64 cs).toOption

end ShipBridge.Numeral
