/-!
# Durations

A duration is a number of nanoseconds. Its text names the largest unit of which it holds a
nonzero whole number, with a fraction that has no trailing zeros.
-/

namespace ShipBridge

structure Duration where
  nanos : Nat
deriving DecidableEq, Repr, Inhabited

namespace Duration

def ofSeconds (n : Nat) : Duration := ⟨n * 1000000000⟩

def ofMillis (n : Nat) : Duration := ⟨n * 1000000⟩

def ofParts (seconds nanos : Nat) : Duration := ⟨seconds * 1000000000 + nanos⟩

def seconds (d : Duration) : Nat := d.nanos / 1000000000

def subsecond (d : Duration) : Nat := d.nanos % 1000000000

/-- The whole milliseconds that cover the duration: a timer never fires early. -/
def millisCeil (d : Duration) : Nat := (d.nanos + 999999) / 1000000

/-- `part` as a fraction of `10^places`, without trailing zeros. -/
def fractionChars (part places : Nat) : List Char :=
  let digits := Nat.toDigits 10 part
  let padded := List.replicate (places - digits.length) '0' ++ digits
  (padded.reverse.dropWhile (· == '0')).reverse

def unitText (amount places : Nat) (unit : String) : String :=
  let whole := toString (amount / Nat.pow 10 places)
  match fractionChars (amount % Nat.pow 10 places) places with
  | [] => whole ++ unit
  | fraction => whole ++ "." ++ String.ofList fraction ++ unit

def text (d : Duration) : String :=
  if 1000000000 ≤ d.nanos then unitText d.nanos 9 "s"
  else if 1000000 ≤ d.nanos then unitText d.nanos 6 "ms"
  else if 1000 ≤ d.nanos then unitText d.nanos 3 "µs"
  else unitText d.nanos 0 "ns"

def toFloat (d : Duration) : Float :=
  Float.ofNat d.seconds + Float.ofNat d.subsecond / 1e9

/-- The duration nearest to a number of seconds, a tie going to the even nanosecond. Negative
numbers and numbers from `2^64` on are no durations, nor is a value that is not a number. -/
def ofFloat? (seconds : Float) : Option Duration :=
  let bits := seconds.toBits.toNat
  let magnitude := bits % 0x8000000000000000
  if magnitude = 0 then some ⟨0⟩
  else if 0x8000000000000000 ≤ bits then none
  else if (1023 + 64) * 0x10000000000000 ≤ magnitude then none
  else
    let biased := magnitude / 0x10000000000000
    let fraction := magnitude % 0x10000000000000
    let mantissa := if biased = 0 then fraction else 0x10000000000000 + fraction
    let exponent := if biased = 0 then 1 else biased
    let num := mantissa * 1000000000 * Nat.pow 2 (exponent - 1075)
    let den := Nat.pow 2 (1075 - exponent)
    let below := num / den
    let twice := 2 * (num % den)
    if den < twice ∨ (twice = den ∧ below % 2 = 1) then some ⟨below + 1⟩ else some ⟨below⟩

end ShipBridge.Duration
