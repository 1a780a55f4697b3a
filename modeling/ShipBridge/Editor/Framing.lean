import ShipBridge.Text.Blank
import ShipBridge.Text.Numeral
import ShipBridge.Text.Quoted
import ShipBridge.Text.Utf8

/-!
# Frames on the editor's side

A frame is a block of header lines, a blank line, and a body whose length one of the headers
gives. Blank lines before the block are passed over; other headers are accepted and ignored; of
several lengths the last one counts. A line that the end of the input cuts off counts as a line.

`scan` looks at the bytes that have arrived and says whether they begin with a whole frame, can
never become one, or leave the question open until more arrives or the input ends.
-/

namespace ShipBridge.Editor.Framing

inductive Flaw where
  | malformedHeader (line : String)
  | invalidLength (value : String)
  | noLength
  | endInHeader
  | tooLarge (size limit : Nat)
  | notText (index : Nat) (flaw : Utf8.Flaw)
  | bodyCutShort
deriving DecidableEq, Repr

inductive Scan where
  | frame (body rest : List UInt8)
  | flawed (f : Flaw)
  | ended
  | waiting
deriving DecidableEq, Repr

def lineFeed : UInt8 := 10

/-- The bytes up to the next line feed, and those after it; `none` when there is none. -/
def cutLine (acc : List UInt8) : List UInt8 → Option (List UInt8 × List UInt8)
  | [] => none
  | b :: bs => if b = lineFeed then some (acc.reverse, bs) else cutLine (b :: acc) bs

theorem length_lt_of_cutLine {acc bytes line rest : List UInt8}
    (h : cutLine acc bytes = some (line, rest)) : rest.length < bytes.length := by
  induction bytes generalizing acc with
  | nil => simp [cutLine] at h
  | cons b bs ih =>
    rw [cutLine] at h
    split at h
    · obtain ⟨-, rfl⟩ := Prod.mk.injEq .. ▸ Option.some.injEq .. ▸ h
      simp
    · exact Nat.lt_succ_of_lt (ih h)

def lineText (line : List UInt8) : Except Flaw (List Char) :=
  match Utf8.split line with
  | (cs, []) => .ok (cs.reverse.dropWhile fun c => c == '\r' || c == '\n').reverse
  | (cs, rest) =>
    .error (.notText (Utf8.encode cs).length ((Utf8.run .boundary rest).2.flaw?.getD .incomplete))

def contentLength : List Char := "content-length".toList

/-- What one header line adds to what is known of the body's length. -/
def headerLength (known : Option Nat) (line : List Char) : Except Flaw (Option Nat) :=
  if line.contains ':' then
    let name := Text.trim (line.takeWhile (· != ':'))
    let value := Text.trim ((line.dropWhile (· != ':')).drop 1)
    if name.map Char.toLower = contentLength then
      match Numeral.read64? value with
      | some n => .ok (some n)
      | none => .error (.invalidLength (String.ofList value))
    else .ok known
  else .error (.malformedHeader (String.ofList line))

/-- The body, once the blank line after the headers has been read. -/
def scanBody (limit : Nat) (closed : Bool) (length : Option Nat) (bytes : List UInt8) : Scan :=
  match length with
  | none => .flawed .noLength
  | some n =>
    if limit < n then .flawed (.tooLarge n limit)
    else if n ≤ bytes.length then .frame (bytes.take n) (bytes.drop n)
    else if closed then .flawed .bodyCutShort
    else .waiting

/-- Header lines from here on; `length` is what the lines before gave, `inHeader` whether there
were any. -/
def scanLines (limit : Nat) (closed inHeader : Bool) (length : Option Nat) (bytes : List UInt8) :
    Scan :=
  match h : cutLine [] bytes with
  | some (line, rest) =>
    have := length_lt_of_cutLine h
    match lineText (line ++ [lineFeed]) with
    | .error f => .flawed f
    | .ok [] =>
      if inHeader then scanBody limit closed length rest
      else scanLines limit closed false length rest
    | .ok header => match headerLength length header with
      | .error f => .flawed f
      | .ok length => scanLines limit closed true length rest
  | none =>
    if !closed then .waiting
    else if bytes.isEmpty then (if inHeader then .flawed .endInHeader else .ended)
    else match lineText bytes with
      | .error f => .flawed f
      | .ok [] => if inHeader then scanBody limit closed length [] else .ended
      | .ok header => match headerLength length header with
        | .error f => .flawed f
        | .ok _ => .flawed .endInHeader
termination_by bytes.length

def scan (limit : Nat) (closed : Bool) (bytes : List UInt8) : Scan :=
  scanLines limit closed false none bytes

inductive Ending where
  | clean
  | flawed (f : Flaw)
deriving DecidableEq, Repr

/-- The bodies of the frames that a whole input holds; `fuel` bounds their number. -/
def framesWithin (limit : Nat) : Nat → List UInt8 → List (List UInt8) × Ending
  | 0, _ => ([], .clean)
  | fuel + 1, bytes => match scan limit true bytes with
    | .frame body rest =>
      let (bodies, ending) := framesWithin limit fuel rest
      (body :: bodies, ending)
    | .flawed f => ([], .flawed f)
    | .ended | .waiting => ([], .clean)

def frames (limit : Nat) (bytes : List UInt8) : List (List UInt8) × Ending :=
  framesWithin limit (bytes.length + 1) bytes

/-- An input that arrives in pieces: the bytes read from it and not yet used, and the pieces that
the coming reads will bring. -/
structure Input where
  held : List UInt8 := []
  coming : List (List UInt8) := []

def Input.whole (i : Input) : List UInt8 := i.held ++ i.coming.flatten

inductive Reading where
  | body (bytes : List UInt8)
  | flawed (f : Flaw)
  | ended
deriving DecidableEq

/-- Read one body. While the bytes held leave it open whether they begin with a frame, one more
piece is read. -/
def readMessage (limit : Nat) (held : List UInt8) : List (List UInt8) → Reading × Input
  | [] => match scan limit true held with
    | .frame body rest => (.body body, ⟨rest, []⟩)
    | .flawed f => (.flawed f, ⟨held, []⟩)
    | .ended | .waiting => (.ended, ⟨[], []⟩)
  | piece :: coming => match scan limit false held with
    | .frame body rest => (.body body, ⟨rest, piece :: coming⟩)
    | .flawed f => (.flawed f, ⟨held, piece :: coming⟩)
    | .ended | .waiting => readMessage limit (held ++ piece) coming

def reads (limit : Nat) : Nat → Input → List Reading
  | 0, _ => []
  | n + 1, i =>
    let (r, i) := readMessage limit i.held i.coming
    r :: reads limit n i

def header (length : Nat) : String := s!"Content-Length: {length}\r\n\r\n"

def write (body : List UInt8) : List UInt8 :=
  Utf8.encode (header body.length).toList ++ body

def frameText (body : String) : String := header body.utf8ByteSize ++ body

def Flaw.message : Flaw → String
  | .malformedHeader line => s!"Malformed header line: {Text.quoted line}"
  | .invalidLength value => s!"Invalid Content-Length: {Text.quoted value}"
  | .noLength => "Message without Content-Length"
  | .endInHeader => "EOF inside message header"
  | .tooLarge size limit => s!"Message of {size} bytes exceeds limit of {limit}"
  | .notText index flaw => flaw.message index
  | .bodyCutShort => "early eof"

end ShipBridge.Editor.Framing
