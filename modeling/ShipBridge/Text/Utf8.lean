/-!
# UTF-8, one byte at a time

A decoder reads bytes singly and hands out a character whenever one is complete. Between two
bytes it is at a character boundary, inside a character whose next byte must lie in a known
range, or broken: once a byte cannot continue what came before, nothing more is decoded. Since
the decoder is a fold over the bytes, the way a text is cut into chunks cannot matter to it.
-/

namespace ShipBridge.Utf8

/-- Where a decoder stands. In `inside`, `value` collects the character's bits, `missing` counts
the bytes still to come, `seen` those already read, and the next must lie from `low` to `high`.
`broken` records how many bytes the undecodable sequence has. -/
inductive State where
  | boundary
  | inside (value missing low high seen : Nat)
  | broken (length : Nat)
deriving DecidableEq, Repr, Inhabited

/-- What a first byte demands of the bytes after it. -/
def lead (b : Nat) : State :=
  if b < 0xC2 then .broken 1
  else if b < 0xE0 then .inside (b - 0xC0) 1 0x80 0xBF 1
  else if b = 0xE0 then .inside 0 2 0xA0 0xBF 1
  else if b = 0xED then .inside 0xD 2 0x80 0x9F 1
  else if b < 0xF0 then .inside (b - 0xE0) 2 0x80 0xBF 1
  else if b = 0xF0 then .inside 0 3 0x90 0xBF 1
  else if b < 0xF4 then .inside (b - 0xF0) 3 0x80 0xBF 1
  else if b = 0xF4 then .inside 4 3 0x80 0x8F 1
  else .broken 1

def feed (s : State) (byte : UInt8) : State × Option Char :=
  let b := byte.toNat
  match s with
  | .boundary => if b < 0x80 then (.boundary, some (Char.ofNat b)) else (lead b, none)
  | .inside value missing low high seen =>
    if low ≤ b ∧ b ≤ high then
      let value := value * 64 + (b - 0x80)
      if missing = 1 then (.boundary, some (Char.ofNat value))
      else (.inside value (missing - 1) 0x80 0xBF (seen + 1), none)
    else (.broken seen, none)
  | .broken n => (.broken n, none)

def run (s : State) (bytes : List UInt8) : List Char × State :=
  let (cs, s) := bytes.foldl (fun (cs, s) b =>
    let (s, c) := feed s b
    (c.elim cs (· :: cs), s)) ([], s)
  (cs.reverse, s)

def decode? (bytes : List UInt8) : Option (List Char) :=
  match run .boundary bytes with
  | (cs, .boundary) => some cs
  | _ => none

def encode (cs : List Char) : List UInt8 := cs.flatMap String.utf8EncodeChar

/-- Why bytes that a decoder could not finish are no text. -/
inductive Flaw where
  | invalid (length : Nat)
  | incomplete
deriving DecidableEq, Repr

def State.flaw? : State → Option Flaw
  | .boundary => none
  | .inside .. => some .incomplete
  | .broken n => some (.invalid n)

def Flaw.message (index : Nat) : Flaw → String
  | .invalid n => s!"invalid utf-8 sequence of {n} bytes from index {index}"
  | .incomplete => s!"incomplete utf-8 byte sequence from index {index}"

/-- Where decoding stopped, if it stopped early: the characters before, and the bytes that no
character could be made of, the first of them the start of the faulty sequence. -/
def split (bytes : List UInt8) : List Char × List UInt8 :=
  let (cs, _) := run .boundary bytes
  (cs, bytes.drop (encode cs).length)

def repairFrom : Nat → List UInt8 → List Char
  | 0, _ => []
  | fuel + 1, bytes => match split bytes with
    | (cs, []) => cs
    | (cs, rest) =>
      let faulty := match (run .boundary rest).2 with
        | .broken n => n
        | _ => rest.length
      cs ++ '\uFFFD' :: repairFrom fuel (rest.drop faulty)

/-- The text of bytes, each sequence that no character can be made of giving a replacement
character. -/
def repair (bytes : List UInt8) : List Char := repairFrom (bytes.length + 1) bytes

end ShipBridge.Utf8
