import ShipBridge.Text.Hexadecimal
import ShipBridge.Text.Utf8

/-!
# Percent-encoding

A byte is spelled out as a percent sign and two hexadecimal digits. Every part of a URL spells
out the control characters and the bytes of all characters beyond ASCII; which further
characters it spells out depends on the part.
-/

namespace ShipBridge.Web.Percent

def encodeByte (b : UInt8) : List Char :=
  ['%', Text.hexCapital (b.toNat / 16), Text.hexCapital b.toNat]

def isControl (c : Char) : Bool := c.toNat < 0x20 || c.toNat == 0x7F

def encode (reserved : List Char) (cs : List Char) : List Char :=
  cs.flatMap fun c =>
    if 0x80 ≤ c.toNat || isControl c || reserved.contains c then
      (String.utf8EncodeChar c).flatMap encodeByte
    else [c]

/-- The bytes that a text stands for. A percent sign without two digits stands for itself. -/
def decode : List Char → List UInt8
  | [] => []
  | '%' :: a :: b :: cs =>
    match Text.hexValue? a, Text.hexValue? b with
    | some x, some y => (x * 16 + y).toUInt8 :: decode cs
    | _, _ => 0x25 :: decode (a :: b :: cs)
  | c :: cs => String.utf8EncodeChar c ++ decode cs

def inFragment : List Char := [' ', '"', '<', '>', '\x60']

def inQuery : List Char := [' ', '"', '#', '<', '>']

def inPath : List Char := inFragment ++ ['#', '?', '\x7b', '\x7d']

def inCredentials : List Char := inPath ++ ['/', ':', ';', '=', '@', '[', '\\', ']', '^', '|']

end ShipBridge.Web.Percent
