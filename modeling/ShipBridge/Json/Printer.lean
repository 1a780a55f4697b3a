import ShipBridge.Json.Basic
import ShipBridge.Decimal.Shortest
import ShipBridge.Text.Hexadecimal

/-!
# JSON text

The written form is compact. Strings escape the quotation mark, the backslash and the control
characters below U+0020, and nothing else. An integer is written in full; a double is written
with the shortest digits that read back, positionally with at least one fraction digit from
10⁻⁵ up to 10¹⁶ and with a signed exponent outside that range.
-/

namespace ShipBridge.Json

def escape (c : Char) : List Char :=
  if c = '"' then ['\\', '"']
  else if c = '\\' then ['\\', '\\']
  else if c = '\n' then ['\\', 'n']
  else if c = '\r' then ['\\', 'r']
  else if c = '\t' then ['\\', 't']
  else if c = '\x08' then ['\\', 'b']
  else if c = '\x0c' then ['\\', 'f']
  else if c.toNat < 0x20 then
    ['\\', 'u', '0', '0', Text.hexDigit (c.toNat / 16), Text.hexDigit c.toNat]
  else [c]

def quote (s : String) : List Char := '"' :: s.toList.flatMap escape ++ ['"']

def intChars (i : Int) : List Char :=
  if i < 0 then '-' :: Nat.toDigits 10 i.natAbs else Nat.toDigits 10 i.natAbs

/-- Lay out `digits · 10^exponent`, `digits` having no trailing zero unless it is zero. -/
def layout (s : Decimal.Scientific) : List Char :=
  let ds := Nat.toDigits 10 s.digits
  let point := (ds.length : Int) + s.exponent
  if 0 ≤ s.exponent ∧ point ≤ 16 then
    ds ++ List.replicate s.exponent.toNat '0' ++ ['.', '0']
  else if 0 < point ∧ point ≤ 16 then ds.take point.toNat ++ '.' :: ds.drop point.toNat
  else if -5 < point ∧ point ≤ 0 then
    '0' :: '.' :: List.replicate (-point).toNat '0' ++ ds
  else
    let mark := if point - 1 < 0 then ['e', '-'] else ['e', '+']
    let fraction := if ds.length = 1 then [] else '.' :: ds.drop 1
    ds.take 1 ++ fraction ++ mark ++ Nat.toDigits 10 (point - 1).natAbs

/-- Zeros keep their sign; doubles that are not finite have no text and are written `null`. -/
def floatChars (bits : UInt64) : List Char :=
  let magnitude := bits.toNat % 0x8000000000000000
  let sign := if 0x8000000000000000 ≤ bits.toNat then ['-'] else []
  if magnitude = 0 then sign ++ ['0', '.', '0']
  else if 0x7FF0000000000000 ≤ magnitude then ['n', 'u', 'l', 'l']
  else sign ++ layout (Decimal.Binary.ofBits magnitude).shortest

def Number.chars : Number → List Char
  | .int i => intChars i
  | .float bits => floatChars bits

mutual

def chars : Json → List Char
  | .null => ['n', 'u', 'l', 'l']
  | .bool true => ['t', 'r', 'u', 'e']
  | .bool false => ['f', 'a', 'l', 's', 'e']
  | .number n => n.chars
  | .string s => quote s
  | .array items => '[' :: itemChars items ++ [']']
  | .object members => '\x7b' :: memberChars members ++ ['\x7d']

def itemChars : List Json → List Char
  | [] => []
  | [j] => j.chars
  | j :: js => j.chars ++ ',' :: itemChars js

def memberChars : List (String × Json) → List Char
  | [] => []
  | [(k, j)] => quote k ++ ':' :: j.chars
  | (k, j) :: ms => quote k ++ ':' :: j.chars ++ ',' :: memberChars ms

end

def text (j : Json) : String := String.ofList j.chars

/-- An object written with its members in the order given, as records are. -/
def recordText (members : List (String × Json)) : String :=
  String.ofList ('\x7b' :: memberChars members ++ ['\x7d'])

end ShipBridge.Json
