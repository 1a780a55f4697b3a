/-!
# Letters of every script in the letters of one

A label with letters beyond ASCII is written as its ASCII letters, a hyphen, and a row of numbers
that say which other letters stand where. The numbers are the gaps between one insertion and the
next, in increasing order of the letters; each is written with its least digit first, in digits
of base 36 whose thresholds follow the size of the gaps seen so far.
-/

namespace ShipBridge.Web.Punycode

/-- Zero to twenty-five are the letters, twenty-six to thirty-five the decimal digits. -/
def digitChar (d : Nat) : Char := Char.ofNat (if d < 26 then 'a'.toNat + d else '0'.toNat + d - 26)

def digitValue? (c : Char) : Option Nat :=
  if 'a' ≤ c ∧ c ≤ 'z' then some (c.toNat - 'a'.toNat)
  else if 'A' ≤ c ∧ c ≤ 'Z' then some (c.toNat - 'A'.toNat)
  else if '0' ≤ c ∧ c ≤ '9' then some (c.toNat - '0'.toNat + 26)
  else none

/-- A digit below the threshold ends its number. `weight` is 36 for the first digit, 72 for the
second, and so on. -/
def threshold (bias weight : Nat) : Nat := min 26 (max 1 (weight - bias))

theorem threshold_pos (bias weight : Nat) : 0 < threshold bias weight := by
  unfold threshold; omega

def damped (gap : Nat) : Nat × Nat :=
  if 455 < gap then
    let (steps, rest) := damped (gap / 35)
    (steps + 36, rest)
  else (0, gap)
termination_by gap

/-- The bias after a gap; `total` letters stand in the label by then. -/
def adapt (gap total : Nat) (first : Bool) : Nat :=
  let gap := if first then gap / 700 else gap / 2
  let (steps, rest) := damped (gap + gap / total)
  steps + 36 * rest / (rest + 38)

def encodeNumber (bias weight n : Nat) : List Char :=
  let t := threshold bias weight
  if n < t then [digitChar n]
  else digitChar (t + (n - t) % (36 - t)) :: encodeNumber bias (weight + 36) ((n - t) / (36 - t))
termination_by n
decreasing_by
  have := threshold_pos bias weight
  exact Nat.lt_of_le_of_lt (Nat.div_le_self _ _) (by omega)

/-- Where an encoder stands: the gap since the last insertion, the bias, how many letters have
been placed, and what has been written. -/
structure Encoder where
  gap : Nat
  bias : Nat
  placed : Nat
  written : List Char

/-- Pass over one letter of the label while the letters equal to `letter` are being placed. -/
def Encoder.pass (start letter : Nat) (e : Encoder) (c : Char) : Encoder :=
  if c.toNat < letter then { e with gap := e.gap + 1 }
  else if c.toNat = letter then
    { gap := 0
      bias := adapt e.gap (e.placed + 1) (e.placed == start)
      placed := e.placed + 1
      written := e.written ++ encodeNumber e.bias 36 e.gap }
  else e

def encode (label : List Char) : List Char :=
  let ascii := label.filter (·.toNat < 0x80)
  let others := ((label.map Char.toNat).filter (0x80 ≤ ·)).mergeSort.eraseDups
  let start := ascii.length
  let (e, _) := others.foldl (fun (e, last) letter =>
      let e := { e with gap := e.gap + (letter - last) * (e.placed + 1) }
      let e := label.foldl (Encoder.pass start letter) e
      ({ e with gap := e.gap + 1 }, letter + 1))
    (({ gap := 0, bias := 72, placed := start, written := [] } : Encoder), 0x80)
  ascii ++ (if ascii.isEmpty then [] else ['-']) ++ e.written

/-- Read a number on top of `n`, the digit at hand counting `unit`. -/
def decodeNumber? (bias weight unit n : Nat) : List Char → Option (Nat × List Char)
  | [] => none
  | c :: cs => match digitValue? c with
    | none => none
    | some d =>
      let t := threshold bias weight
      if d < t then some (n + d * unit, cs)
      else decodeNumber? bias (weight + 36) (unit * (36 - t)) (n + d * unit) cs

theorem decodeNumber?_length {bias weight unit n : Nat} {cs : List Char} {r : Nat × List Char}
    (h : decodeNumber? bias weight unit n cs = some r) : r.2.length < cs.length := by
  induction cs generalizing weight unit n with
  | nil => simp [decodeNumber?] at h
  | cons c cs ih =>
    unfold decodeNumber? at h
    split at h
    · simp at h
    · dsimp only at h
      split at h
      · cases h; simp
      · exact Nat.lt_succ_of_lt (ih h)

/-- Insert the letters that the numbers in `cs` describe. The last letter inserted was `letter`,
and `at_` is where the next one could stand at the earliest. -/
def insertAll? (bias letter place : Nat) (label : List Char) (cs : List Char) :
    Option (List Char) :=
  match cs with
  | [] => some label
  | c :: cs => match h : decodeNumber? bias 36 1 place (c :: cs) with
    | none => none
    | some (n, rest) =>
      let total := label.length + 1
      let letter := letter + n / total
      let spot := n % total
      if letter < 0xD800 ∨ (0xDFFF < letter ∧ letter < 0x110000) then
        insertAll? (adapt (n - place) total (place == 0)) letter (spot + 1)
          (label.insertIdx spot (Char.ofNat letter)) rest
      else none
termination_by cs.length
decreasing_by exact decodeNumber?_length h

/-- The ASCII letters end at the last hyphen, if they are any; the numbers follow. -/
def decode? (cs : List Char) : Option (List Char) :=
  let numbers := (cs.reverse.takeWhile (· != '-')).reverse
  let ascii := (cs.take (cs.length - numbers.length)).dropLast
  if cs.any (0x80 ≤ ·.toNat) then none
  else if ascii.isEmpty then insertAll? 72 0x80 0 [] cs
  else insertAll? 72 0x80 0 ascii numbers

end ShipBridge.Web.Punycode
