/-!
# The shortest decimal that reads back

A positive finite double is `m · 2^q`. The reals that round to it form an interval around it,
whose ends belong to it exactly when `m` is even. For one digit, two digits, and so on, the two
neighbours of the value on the decimal grid of that fineness are tried; the first grid with a
neighbour in the interval wins, and of two such neighbours the nearer.

All arithmetic is on natural numbers: values are compared after multiplication by a common
denominator.
-/

namespace ShipBridge.Decimal

/-- A positive finite double, `mantissa · 2^exponent`. In a double at the lower edge of its binade
the gap below is half the gap above. -/
structure Binary where
  mantissa : Nat
  exponent : Int
  atEdge : Bool

def Binary.ofBits (bits : Nat) : Binary :=
  let fraction : Nat := bits % 0x10000000000000
  let biased : Nat := bits / 0x10000000000000 % 0x800
  if biased = 0 then ⟨fraction, -1074, false⟩
  else ⟨0x10000000000000 + fraction, (biased : Int) - 1075, fraction == 0 && 1 < biased⟩

/-- `digits · 10^exponent`. -/
structure Scientific where
  digits : Nat
  exponent : Int

/-- Is `s` inside the interval of reals that round to `b`? Both ends and `s` are scaled by
`4 · 2^a · 10^c` with `a` and `c` large enough to clear every denominator. -/
def Binary.contains (b : Binary) (s : Scientific) : Bool :=
  let a := (-b.exponent).toNat
  let c := (-s.exponent).toNat
  let unit := Nat.pow 2 (b.exponent + a).toNat * Nat.pow 10 c
  let low := (if b.atEdge then 4 * b.mantissa - 1 else 4 * b.mantissa - 2) * unit
  let high := (4 * b.mantissa + 2) * unit
  let point := 4 * s.digits * Nat.pow 10 (s.exponent + c).toNat * Nat.pow 2 a
  if b.mantissa % 2 = 0 then low ≤ point && point ≤ high else low < point && point < high

/-- The greatest `p` with `10^p` at most `b`. -/
def Binary.magnitude (b : Binary) : Int :=
  let scaled := b.mantissa * Nat.pow 10 400 * Nat.pow 2 b.exponent.toNat
  let scaled := scaled / Nat.pow 2 (-b.exponent).toNat
  ((Nat.toDigits 10 scaled).length : Int) - 401

/-- The grid point at or below `b` with `exponent` as its last place, and whether the point above
is to be preferred: it is nearer to `b`, or as near and even. -/
def Binary.floor (b : Binary) (exponent : Int) : Nat × Bool :=
  let num := b.mantissa * Nat.pow 2 b.exponent.toNat * Nat.pow 10 (-exponent).toNat
  let den := Nat.pow 2 (-b.exponent).toNat * Nat.pow 10 exponent.toNat
  let below := num / den
  let twice := 2 * (num % den)
  (below, den < twice || (den == twice && below % 2 == 1))

def Binary.onGrid? (b : Binary) (exponent : Int) : Option Scientific :=
  let (below, aboveBetter) := b.floor exponent
  let low : Scientific := ⟨below, exponent⟩
  let high : Scientific := ⟨below + 1, exponent⟩
  match b.contains low, b.contains high with
  | true, true => some (if aboveBetter then high else low)
  | true, false => some low
  | false, true => some high
  | false, false => none

/-- Try grids of `17 - n`, `18 - n`, … digits. Seventeen digits always suffice. -/
def Binary.search (b : Binary) (magnitude : Int) : Nat → Scientific
  | 0 => ⟨(b.floor (magnitude - 16)).1, magnitude - 16⟩
  | n + 1 => match b.onGrid? (magnitude - (16 - n)) with
    | some s => s
    | none => b.search magnitude n

def Scientific.trim (s : Scientific) : Nat → Scientific
  | 0 => s
  | n + 1 => if s.digits ≠ 0 ∧ s.digits % 10 = 0 then
      Scientific.trim ⟨s.digits / 10, s.exponent + 1⟩ n
    else s

def Binary.shortest (b : Binary) : Scientific := (b.search b.magnitude 17).trim 18

end ShipBridge.Decimal
