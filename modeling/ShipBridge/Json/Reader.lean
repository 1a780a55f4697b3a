import ShipBridge.Json.Numeral
import ShipBridge.Text.Hexadecimal

/-!
# Reading JSON

The reader is strict. It stops at the first problem in reading order and tells a text that is no
JSON from one that ends too early. At most 127 arrays and objects may be open at once.

Reading gives a tree whose objects hold their members as they stand in the text. `normalize`
sorts them by key, the last of equal keys winning; values are kept and compared in that form,
while a record's decoder looks at the members as read, so that it can refuse a repeated key.
-/

namespace ShipBridge.Json

def isSpace (c : Char) : Bool := c == ' ' || c == '\n' || c == '\t' || c == '\r'

def skipSpace (cs : List Char) : List Char := cs.dropWhile isSpace

def unescape? (c : Char) : Option Char :=
  if c = '"' ∨ c = '\\' ∨ c = '/' then some c
  else if c = 'b' then some '\x08'
  else if c = 'f' then some '\x0c'
  else if c = 'n' then some '\n'
  else if c = 'r' then some '\r'
  else if c = 't' then some '\t'
  else none

/-- Where the reader of a string stands. `hex` counts the digits left of an escape by number;
`high` is the leading half of a surrogate pair whose trailing half must follow. -/
inductive Quoting where
  | plain
  | escaped
  | hex (left value : Nat) (high : Option Nat)
  | paired (high : Nat)
  | pairedEscaped (high : Nat)
deriving DecidableEq

/-- Do at least four bytes follow? An escape by number needs them before its digits are read. -/
def hasFourBytes (cs : List Char) : Bool :=
  4 ≤ (cs.take 4).foldl (fun n c => n + c.utf8Size) 0

def isLeading (n : Nat) : Bool := 0xD800 ≤ n && n ≤ 0xDBFF

def isTrailing (n : Nat) : Bool := 0xDC00 ≤ n && n ≤ 0xDFFF

/-- The characters of a string up to its closing quotation mark, `acc` being those read so far,
last first. -/
def readQuoted (q : Quoting) (acc : List Char) : List Char → Reading String
  | [] => .error .cutShort
  | c :: cs => match q with
    | .plain =>
      if c = '"' then .ok (String.ofList acc.reverse, cs)
      else if c = '\\' then readQuoted .escaped acc cs
      else if c.toNat < 0x20 then .error .notJson
      else readQuoted .plain (c :: acc) cs
    | .escaped =>
      if c = 'u' then
        if hasFourBytes cs then readQuoted (.hex 4 0 none) acc cs else .error .cutShort
      else match unescape? c with
        | some d => readQuoted .plain (d :: acc) cs
        | none => .error .notJson
    | .hex left value high => match Text.hexValue? c with
      | none => .error .notJson
      | some d =>
        let value := value * 16 + d
        if 1 < left then readQuoted (.hex (left - 1) value high) acc cs
        else match high with
          | none =>
            if isTrailing value then .error .notJson
            else if isLeading value then readQuoted (.paired value) acc cs
            else readQuoted .plain (Char.ofNat value :: acc) cs
          | some h =>
            if isTrailing value then
              let point := 0x10000 + (h - 0xD800) * 0x400 + (value - 0xDC00)
              readQuoted .plain (Char.ofNat point :: acc) cs
            else .error .notJson
    | .paired h => if c = '\\' then readQuoted (.pairedEscaped h) acc cs else .error .notJson
    | .pairedEscaped h =>
      if c = 'u' then
        if hasFourBytes cs then readQuoted (.hex 4 0 (some h)) acc cs else .error .cutShort
      else .error .notJson

def readString (cs : List Char) : Reading String := readQuoted .plain [] cs

def readLiteral (value : Json) : List Char → List Char → Reading Json
  | [], cs => .ok (value, cs)
  | _ :: _, [] => .error .cutShort
  | e :: es, c :: cs => if c = e then readLiteral value es cs else .error .notJson

def readNumber (positive : Bool) (cs : List Char) : Reading Json :=
  (readUnsigned positive cs).map fun (n, rest) => (.number n, rest)

def readColon (cs : List Char) : Except Fault (List Char) :=
  match skipSpace cs with
  | [] => .error .cutShort
  | ':' :: cs => .ok cs
  | _ => .error .notJson

/-- What stands after an item: the closing bracket, or a comma and then another item. -/
inductive Next where
  | close (rest : List Char)
  | more (rest : List Char)

def readSeparator (close : Char) (cs : List Char) : Except Fault Next :=
  match skipSpace cs with
  | [] => .error .cutShort
  | c :: cs =>
    if c = close then .ok (.close cs)
    else if c = ',' then
      match skipSpace cs with
      | [] => .error .cutShort
      | c :: cs => if c = close then .error .notJson else .ok (.more (c :: cs))
    else .error .notJson

mutual

def readTree (fuel depth : Nat) (cs : List Char) : Reading Json :=
  match fuel with
  | 0 => .error .notJson
  | fuel + 1 => match skipSpace cs with
    | [] => .error .cutShort
    | 'n' :: cs => readLiteral .null ['u', 'l', 'l'] cs
    | 't' :: cs => readLiteral (.bool true) ['r', 'u', 'e'] cs
    | 'f' :: cs => readLiteral (.bool false) ['a', 'l', 's', 'e'] cs
    | '"' :: cs => (readString cs).map fun (s, rest) => (.string s, rest)
    | '-' :: cs => readNumber false cs
    | '[' :: cs => match depth with
      | 0 => .error .notJson
      | depth + 1 => match skipSpace cs with
        | [] => .error .cutShort
        | ']' :: cs => .ok (.array [], cs)
        | cs => (readItems fuel depth [] cs).map fun (js, rest) => (.array js, rest)
    | '\x7b' :: cs => match depth with
      | 0 => .error .notJson
      | depth + 1 => match skipSpace cs with
        | [] => .error .cutShort
        | '\x7d' :: cs => .ok (.object [], cs)
        | cs => (readMembers fuel depth [] cs).map fun (ms, rest) => (.object ms, rest)
    | c :: cs => if isDigit c then readNumber true (c :: cs) else .error .notJson

/-- The items of an array from the next one on, `acc` being those before it, last first. -/
def readItems (fuel depth : Nat) (acc : List Json) (cs : List Char) : Reading (List Json) :=
  match fuel with
  | 0 => .error .notJson
  | fuel + 1 => match readTree fuel depth cs with
    | .error e => .error e
    | .ok (j, cs) => match readSeparator ']' cs with
      | .error e => .error e
      | .ok (.close rest) => .ok ((j :: acc).reverse, rest)
      | .ok (.more rest) => readItems fuel depth (j :: acc) rest

/-- The members of an object from the next key on. -/
def readMembers (fuel depth : Nat) (acc : List (String × Json)) (cs : List Char) :
    Reading (List (String × Json)) :=
  match fuel with
  | 0 => .error .notJson
  | fuel + 1 => match cs with
    | '"' :: cs => match readString cs with
      | .error e => .error e
      | .ok (key, cs) => match readColon cs with
        | .error e => .error e
        | .ok cs => match readTree fuel depth cs with
          | .error e => .error e
          | .ok (j, cs) => match readSeparator '\x7d' cs with
            | .error e => .error e
            | .ok (.close rest) => .ok (((key, j) :: acc).reverse, rest)
            | .ok (.more rest) => readMembers fuel depth ((key, j) :: acc) rest
    | _ => .error .notJson

end

/-- The number of arrays and objects that may be open at once. -/
def depthLimit : Nat := 127

/-- Enough for every step that reading `cs` can take. -/
def stepsFor (cs : List Char) : Nat := 2 * cs.length + 2

/-- Read one value off the front of a text, objects as they stand. -/
def readRoot (cs : List Char) : Reading Json := readTree (stepsFor cs) depthLimit cs

mutual

/-- Sort the members of every object by key; the last of equal keys wins. -/
def normalize : Json → Json
  | .array items => .array (normalizeItems items)
  | .object members => ofMembers (normalizeMembers members)
  | .null => .null
  | .bool b => .bool b
  | .number n => .number n
  | .string s => .string s

def normalizeItems : List Json → List Json
  | [] => []
  | j :: js => j.normalize :: normalizeItems js

def normalizeMembers : List (String × Json) → List (String × Json)
  | [] => []
  | (k, j) :: ms => (k, j.normalize) :: normalizeMembers ms

end

def expectEnd (cs : List Char) : Except Fault Unit :=
  if (skipSpace cs).isEmpty then .ok () else .error .notJson

def read (cs : List Char) : Except Fault Json := do
  let (j, rest) ← readRoot cs
  expectEnd rest
  return j.normalize

def parse (text : String) : Except Fault Json := read text.toList

end ShipBridge.Json
