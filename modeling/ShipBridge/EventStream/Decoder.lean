import ShipBridge.Session.Fault
import ShipBridge.Text.Blank
import ShipBridge.Text.Numeral
import ShipBridge.Text.Utf8

/-!
# Server-sent events

A body of bytes is decoded into events one byte at a time. A line ends with a line feed, with a
carriage return, or with both; a carriage return at the end of what has arrived stays undecided
until the next character shows which. A blank line dispatches the event collected so far, unless
no data was collected; its id stays in force for later events until another replaces it.

Bytes after one that is no UTF-8 are never decoded; the flaw is reported when the body ends. A
body may not open with a byte order mark: the decoder refuses it and yields nothing more.
-/

namespace ShipBridge.EventStream

structure Event where
  id : Option String := none
  kind : Option String := none
  data : String
deriving DecidableEq, Repr, Inhabited

def Event.number? (e : Event) : Option Nat :=
  e.id.bind fun id => Numeral.read64? (Text.trim id.toList)

structure Draft where
  id : List Char := []
  kind : List Char := []
  data : List Char := []
deriving DecidableEq, Repr, Inhabited

/-- A line's field name and its value: what follows the first colon, less one space. -/
def splitField (line : List Char) : List Char × List Char :=
  (line.takeWhile (· != ':'), match line.dropWhile (· != ':') with
    | ':' :: ' ' :: value => value
    | _ :: value => value
    | [] => [])

def Draft.field (d : Draft) (name value : List Char) : Draft :=
  if name = "data".toList then { d with data := d.data ++ value ++ ['\n'] }
  else if name = "event".toList then { d with kind := value }
  else if name = "id".toList then if value.contains '\x00' then d else { d with id := value }
  else d

def nonempty? (cs : List Char) : Option String :=
  if cs.isEmpty then none else some (String.ofList cs)

/-- The event of a draft, which has some data; its last line feed is dropped. -/
def Draft.event (d : Draft) : Event where
  id := nonempty? d.id
  kind := some (if d.kind.isEmpty then "message" else String.ofList d.kind)
  data := String.ofList d.data.dropLast

def Draft.line (d : Draft) (line : List Char) : Draft × Option Event :=
  match line with
  | [] => ({ id := d.id }, if d.data.isEmpty then none else some d.event)
  | ':' :: _ => (d, none)
  | line =>
    let (name, value) := splitField line
    (d.field name value, none)

/-- A decoder between two characters: the unfinished line, last character first, and whether a
carriage return stands undecided at its end. -/
structure Lines where
  draft : Draft := {}
  unfinished : List Char := []
  afterReturn : Bool := false
deriving DecidableEq, Repr, Inhabited

def Lines.endLine (s : Lines) : Lines × Option Event :=
  let (draft, event) := s.draft.line s.unfinished.reverse
  ({ draft }, event)

/-- Take in a character when no carriage return stands undecided. -/
def Lines.character (s : Lines) (c : Char) : Lines × Option Event :=
  if c = '\n' then s.endLine
  else if c = '\r' then ({ s with afterReturn := true }, none)
  else ({ s with unfinished := c :: s.unfinished }, none)

def Lines.feed (s : Lines) (c : Char) : Lines × Option Event :=
  if s.afterReturn then
    let (ended, event) := s.endLine
    if c = '\n' then (ended, event) else ((ended.character c).1, event)
  else s.character c

inductive Start where
  | fresh
  | started
  | refused
deriving DecidableEq, Repr, Inhabited

structure Decoder where
  utf8 : Utf8.State := .boundary
  start : Start := .fresh
  lines : Lines := {}
deriving DecidableEq, Repr, Inhabited

def byteOrderMark : Char := '\ufeff'

def Decoder.feed (d : Decoder) (byte : UInt8) : Decoder × Option Event :=
  match Utf8.feed d.utf8 byte with
  | (utf8, none) => ({ d with utf8 }, none)
  | (utf8, some c) =>
    if d.start = .refused ∨ (d.start = .fresh ∧ c = byteOrderMark) then
      ({ d with utf8, start := .refused }, none)
    else
      let (lines, event) := d.lines.feed c
      ({ utf8, start := .started, lines }, event)

def Decoder.run (d : Decoder) (bytes : List UInt8) : Decoder × List Event :=
  let (d, events) := bytes.foldl (fun (d, events) b =>
    let (d, event) := d.feed b
    (d, event.elim events (· :: events))) (d, [])
  (d, events.reverse)

/-- What a body brings: bytes, or a failure of the connection that carries it. -/
inductive Chunk where
  | bytes (bytes : List UInt8)
  | failure (message : String)

abbrev Item := Except Session.Fault Event

def transportFault (message : String) : Session.Fault :=
  .eventStream s!"Transport error: {message}"

def Decoder.chunk (d : Decoder) : Chunk → Decoder × List Item
  | .bytes bytes =>
    let (d, events) := d.run bytes
    (d, events.map .ok)
  | .failure message => (d, [.error (transportFault message)])

def Decoder.finish (d : Decoder) : List Item :=
  match d.utf8.flaw? with
  | none => []
  | some flaw => [.error (.eventStream ("UTF8 error: " ++ flaw.message 0))]

/-- Everything that a body yields; `none` when it opens with a byte order mark. -/
def decode? (chunks : List Chunk) : Option (List Item) :=
  let (d, items) := chunks.foldl (fun (d, items) chunk =>
    let (d, more) := d.chunk chunk
    (d, items ++ more)) (({} : Decoder), [])
  if d.start = .refused then none else some (items ++ d.finish)

end ShipBridge.EventStream
