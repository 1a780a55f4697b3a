import ShipBridge.Text.Numeral
import ShipBridge.Web.Domain
import ShipBridge.Web.Percent

/-!
# Hosts

A host is a name, a 32-bit address or a 128-bit address. In the schemes of the web a name whose
last label is a number is read as a 32-bit address or refused; in other schemes a name is taken as
it stands. A 128-bit address is written in brackets, its longest run of zero places left out.
-/

namespace ShipBridge.Web

inductive UrlFlaw where
  | schemeless
  | emptyHost
  | portNumber
  | address32
  | address128
  | domainName
  | hostCharacter
deriving DecidableEq, Repr

def UrlFlaw.message : UrlFlaw → String
  | .schemeless => "relative URL without a base"
  | .emptyHost => "empty host"
  | .portNumber => "invalid port number"
  | .address32 => "invalid IPv4 address"
  | .address128 => "invalid IPv6 address"
  | .domainName => "invalid international domain name"
  | .hostCharacter => "invalid domain character"

inductive Host where
  | name (text : String)
  | address32 (value : Nat)
  | address128 (places : List Nat)
deriving DecidableEq, Repr, Inhabited

namespace Host

def digits? (base : Nat) (cs : List Char) : Option Nat :=
  cs.foldlM (fun n c => match Text.hexValue? c with
    | some d => if d < base then some (n * base + d) else none
    | none => none) 0

/-- One part of a 32-bit address: hexadecimal after `0x`, octal after another leading zero. -/
def part? : List Char → Option Nat
  | [] => none
  | '0' :: 'x' :: cs | '0' :: 'X' :: cs => digits? 16 cs
  | '0' :: c :: cs => digits? 8 (c :: cs)
  | cs => digits? 10 cs

/-- The parts of a dotted text; one full stop at the end does not count. -/
def parts (cs : List Char) : List (List Char) :=
  let all := Text.pieces '.' cs
  if all.getLast? = some [] then all.dropLast else all

def endsInNumber (cs : List Char) : Bool :=
  match (parts cs).getLast? with
  | none => false
  | some last => (!last.isEmpty && last.all (Numeral.digit? · |>.isSome)) || (part? last).isSome

/-- The last part fills all places that the parts before it leave. -/
def readAddress32 (cs : List Char) : Except UrlFlaw Nat :=
  match (parts cs).mapM part? with
  | none => .error .address32
  | some numbers =>
    let octets := numbers.dropLast
    let last := numbers.getLastD 0
    let room := Nat.pow 256 (4 - octets.length)
    if 4 < numbers.length ∨ room ≤ last ∨ octets.any (255 < ·) then .error .address32
    else .ok (octets.foldl (fun n octet => n * 256 + octet) 0 * room + last)

/-- A decimal number below 256 without leading zeros. -/
def octet? (cs : List Char) : Option Nat :=
  match digits? 10 cs with
  | some n => if cs.isEmpty ∨ 255 < n ∨ (cs.head? = some '0' ∧ 1 < cs.length) then none else some n
  | none => none

def group? (cs : List Char) : Option Nat :=
  if cs.isEmpty ∨ 4 < cs.length then none else digits? 16 cs

/-- The last group of a 128-bit address may be four octets, which fill two places. -/
def lastGroup? (cs : List Char) : Option (List Nat) :=
  if cs.contains '.' then
    match (Text.pieces '.' cs).mapM octet? with
    | some [a, b, c, d] => some [a * 256 + b, c * 256 + d]
    | _ => none
  else (group? cs).map ([·])

/-- A row of groups; only a row that ends the address may end in four octets. -/
def groups? (final : Bool) (cs : List Char) : Option (List Nat) :=
  if cs.isEmpty then some []
  else
    let all := Text.pieces ':' cs
    if final then do
      return (← all.dropLast.mapM group?) ++ (← lastGroup? (all.getLastD []))
    else all.mapM group?

def cutColons (cs : List Char) : List Char × Option (List Char) :=
  match cs with
  | ':' :: ':' :: rest => ([], some rest)
  | c :: rest => let (before, after) := cutColons rest; (c :: before, after)
  | [] => ([], none)

/-- Eight places, or fewer around a pair of colons that stands for at least one zero. -/
def readAddress128 (cs : List Char) : Except UrlFlaw (List Nat) :=
  let places? := match cutColons cs with
    | (before, some after) => do
      let left ← groups? false before
      let right ← groups? true after
      let missing := 8 - (left.length + right.length)
      if missing = 0 then none else some (left ++ List.replicate missing 0 ++ right)
    | (whole, none) => do
      let places ← groups? true whole
      if places.length = 8 then some places else none
  match places? with
  | some places => .ok places
  | none => .error .address128

/-- Is the text in brackets, and what do they hold? A bracket left open is a flaw. -/
def bracketed? (cs : List Char) : Option (Except UrlFlaw (List Char)) :=
  match cs with
  | '[' :: rest => some <|
    if rest.getLast? = some ']' then .ok rest.dropLast else .error .address128
  | _ => none

def readBracketed (inner : Except UrlFlaw (List Char)) : Except UrlFlaw Host := do
  return .address128 (← readAddress128 (← inner))

def read (cs : List Char) : Except UrlFlaw Host :=
  match bracketed? cs with
  | some inner => readBracketed inner
  | none => match Domain.toAscii? (Percent.decode cs) with
    | none => .error .domainName
    | some [] => .error .emptyHost
    | some domain =>
      if endsInNumber domain then (readAddress32 domain).map .address32
      else .ok (.name (String.ofList domain))

def isRefusedVerbatim (c : Char) : Bool :=
  ['\x00', '\t', '\n', '\r', ' ', '#', '/', ':', '<', '>', '?', '@', '[', '\\', ']', '^',
    '|'].contains c

/-- The host of a URL outside the web, where names have no rules of their own. -/
def readVerbatim (cs : List Char) : Except UrlFlaw Host :=
  match bracketed? cs with
  | some inner => readBracketed inner
  | none =>
    if cs.any isRefusedVerbatim then .error .hostCharacter
    else .ok (.name (String.ofList (Percent.encode [] cs)))

/-- The first of the longest runs of zeros: where it starts and how long it is. -/
def zeroRun : List Nat → Nat × Nat
  | [] => (0, 0)
  | n :: rest =>
    let here := ((n :: rest).takeWhile (· == 0)).length
    let (start, length) := zeroRun rest
    if length ≤ here then (0, here) else (start + 1, length)

def placesText (places : List Nat) : List Char :=
  Text.join [':'] (places.map (Nat.toDigits 16))

/-- A single zero is never left out. -/
def text : Host → String
  | .name t => t
  | .address32 v =>
    ".".intercalate ([3, 2, 1, 0].map fun i => toString (v / Nat.pow 256 i % 256))
  | .address128 places =>
    let (start, length) := zeroRun places
    let inner := if length < 2 then placesText places
      else placesText (places.take start) ++ [':', ':'] ++
        placesText (places.drop (start + length))
    String.ofList ('[' :: inner ++ [']'])

end ShipBridge.Web.Host
