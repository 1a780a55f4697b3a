import ShipBridge.Json.Basic

/-!
# Reading JSON numbers

The digits of a number are gathered into a significand of at most 64 bits. Integer digits beyond
that only raise the decimal exponent, and fraction digits beyond it are passed over. The
significand is converted to the nearest double and then multiplied or divided by a power of ten,
each step rounding to nearest; a step handles exponents up to 308. A result beyond the largest
double is no number, and one below the smallest is zero.
-/

namespace ShipBridge.Json

/-- Why reading stopped: the text is no JSON, or it ends too early, or it is JSON of a shape that
was not expected. -/
inductive Fault where
  | notJson
  | cutShort
  | shape
deriving DecidableEq, Repr

namespace Fault

def label : Fault → String
  | .notJson => "<syntax>"
  | .cutShort => "<eof>"
  | .shape => "<data>"

end Fault

/-- What reading a `α` off the front of a text gives: the value and the rest, or a fault. -/
abbrev Reading (α : Type) := Except Fault (α × List Char)

def digitValue? (c : Char) : Option Nat :=
  if '0' ≤ c ∧ c ≤ '9' then some (c.toNat - '0'.toNat) else none

def significandLimit : Nat := 0xFFFFFFFFFFFFFFFF

/-- The double `significand · 10^exponent`, scaled in steps; `none` when it is too large. -/
def scale (value : Float) (exponent : Int) : Nat → Option Float
  | 0 => some value
  | fuel + 1 =>
    if exponent.natAbs ≤ 308 then
      let power := Float.ofScientific 1 false exponent.natAbs
      if 0 ≤ exponent then
        let scaled := value * power
        if scaled.isInf then none else some scaled
      else some (value / power)
    else if value == 0.0 then some value
    else if 0 ≤ exponent then none
    else scale (value / 1e308) (exponent + 308) fuel

def ofParts (positive : Bool) (significand : Nat) (exponent : Int) : Except Fault Number :=
  match scale (Float.ofNat significand) exponent (exponent.natAbs / 308 + 1) with
  | none => .error .notJson
  | some value => .ok (.float (if positive then value else -value).toBits)

def zeroFloat (positive : Bool) : Number := .float (if positive then 0.0 else -0.0 : Float).toBits

def exponentLimit : Nat := 0x7FFFFFFF

/-- Exponent digits after the first. The outer option is `none` when the exponent is past its
limit. -/
def exponentDigits (value : Nat) : List Char → Option Nat × List Char
  | [] => (some value, [])
  | c :: cs => match digitValue? c with
    | none => (some value, c :: cs)
    | some d => if value * 10 + d ≤ exponentLimit then exponentDigits (value * 10 + d) cs
      else (none, cs.dropWhile fun c => (digitValue? c).isSome)

/-- An exponent too large to hold still tells an overflow from an underflow. -/
def readExponent (positive : Bool) (significand : Nat) (start : Int) (cs : List Char) :
    Reading Number :=
  let (up, cs) := match cs with
    | '+' :: cs => (true, cs)
    | '-' :: cs => (false, cs)
    | cs => (true, cs)
  match cs with
  | [] => .error .cutShort
  | c :: cs => match digitValue? c with
    | none => .error .notJson
    | some d => match exponentDigits d cs with
      | (some e, rest) =>
        (ofParts positive significand (if up then start + e else start - e)).map (·, rest)
      | (none, rest) =>
        if significand ≠ 0 ∧ up then .error .notJson else .ok (zeroFloat positive, rest)

def readScale (positive : Bool) (significand : Nat) (exponent : Int) (cs : List Char) :
    Reading Number :=
  match cs with
  | 'e' :: cs | 'E' :: cs => readExponent positive significand exponent cs
  | cs => (ofParts positive significand exponent).map (·, cs)

def isDigit (c : Char) : Bool := (digitValue? c).isSome

/-- Fraction digits, gathered while they fit. The flag tells whether any digit has been read. -/
def readFraction (positive : Bool) (significand : Nat) (exponent : Int) (any : Bool) :
    List Char → Reading Number
  | [] => if any then readScale positive significand exponent [] else .error .cutShort
  | c :: cs => match digitValue? c with
    | none => if any then readScale positive significand exponent (c :: cs) else .error .notJson
    | some d =>
      if significand * 10 + d ≤ significandLimit then
        readFraction positive (significand * 10 + d) (exponent - 1) true cs
      else readScale positive significand exponent (cs.dropWhile isDigit)

/-- Integer digits past the significand's limit. -/
def readLong (positive : Bool) (significand : Nat) (exponent : Int) : List Char → Reading Number
  | '.' :: cs => readFraction positive significand exponent false cs
  | c :: cs =>
    if isDigit c then readLong positive significand (exponent + 1) cs
    else readScale positive significand exponent (c :: cs)
  | [] => readScale positive significand exponent []

/-- An integer that a signed or unsigned 64-bit word can hold stays exact; minus zero, and a
negative one past the signed range, are doubles. -/
def exact (positive : Bool) (significand : Nat) : Number :=
  if positive then .int significand
  else if significand ≠ 0 ∧ significand ≤ 0x8000000000000000 then .int (-significand)
  else .float (-(Float.ofNat significand)).toBits

def readTail (positive : Bool) (significand : Nat) (cs : List Char) : Reading Number :=
  match cs with
  | '.' :: cs => readFraction positive significand 0 false cs
  | 'e' :: cs | 'E' :: cs => readExponent positive significand 0 cs
  | cs => .ok (exact positive significand, cs)

def readInteger (positive : Bool) (significand : Nat) : List Char → Reading Number
  | [] => readTail positive significand []
  | c :: cs => match digitValue? c with
    | none => readTail positive significand (c :: cs)
    | some d =>
      if significand * 10 + d ≤ significandLimit then
        readInteger positive (significand * 10 + d) cs
      else readLong positive significand 1 cs

/-- A number after its sign. A leading zero stands alone. -/
def readUnsigned (positive : Bool) : List Char → Reading Number
  | [] => .error .cutShort
  | '0' :: c :: cs => if isDigit c then .error .notJson else readTail positive 0 (c :: cs)
  | ['0'] => readTail positive 0 []
  | c :: cs => match digitValue? c with
    | none => .error .notJson
    | some d => readInteger positive d cs

end ShipBridge.Json
