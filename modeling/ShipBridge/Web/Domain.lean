import ShipBridge.Text.Hidden
import ShipBridge.Text.Lowercase
import ShipBridge.Text.Split
import ShipBridge.Text.Utf8
import ShipBridge.Web.Punycode

/-!
# Domain names

A domain name may be written with letters of any script, in either case and in full width; it is
carried in small ASCII letters. Each label that has letters beyond ASCII becomes `xn--` and its
encoding; a label that already has that form must be the encoding of a label in normal form.
-/

namespace ShipBridge.Web.Domain

/-- Characters that a name is read without. -/
def isIgnored (c : Char) : Bool :=
  let n := c.toNat
  n == 0xAD || n == 0x34F || n == 0x200B || n == 0x2060 || n == 0x2064 || n == 0xFEFF ||
    (0x180B ≤ n && n ≤ 0x180F && n != 0x180E) || (0xFE00 ≤ n && n ≤ 0xFE0F)

def isFullStop (c : Char) : Bool :=
  c == '.' || c.toNat == 0x3002 || c.toNat == 0xFF0E || c.toNat == 0xFF61

def fold (c : Char) : List Char :=
  let n := c.toNat
  if isFullStop c then ['.']
  else if isIgnored c then []
  else if 0xFF01 ≤ n && n ≤ 0xFF5E then [(Char.ofNat (n - 0xFEE0)).toLower]
  else [Text.lower c]

/-- Characters that no name holds: controls, separators, the marks of a URL's parts, and
characters that cannot be seen. -/
def isForbidden (c : Char) : Bool :=
  let n := c.toNat
  if n < 0x80 then
    n ≤ 0x20 || n == 0x7F ||
      ['#', '%', '/', ':', '<', '>', '?', '@', '[', '\\', ']', '^', '|'].contains c
  else Text.isHidden c || n == 0xFFFD

def isAscii (cs : List Char) : Bool := cs.all (·.toNat < 0x80)

def encodedMark : List Char := ['x', 'n', '-', '-']

/-- A label in the normal form that an encoded label must stand for. -/
def isNormal (label : List Char) : Bool :=
  !isAscii label && label.flatMap fold == label && !label.contains '.' && !label.any isForbidden

def label? (label : List Char) : Option (List Char) :=
  if encodedMark.isPrefixOf label then
    match Punycode.decode? (label.drop 4) with
    | some decoded => if isNormal decoded then some label else none
    | none => none
  else if isAscii label then some label
  else some (encodedMark ++ Punycode.encode label)

def toAscii? (bytes : List UInt8) : Option (List Char) := do
  let name := (← Utf8.decode? bytes).flatMap fold
  if name.any isForbidden then none
  else return Text.join ['.'] (← (Text.pieces '.' name).mapM label?)

end ShipBridge.Web.Domain
