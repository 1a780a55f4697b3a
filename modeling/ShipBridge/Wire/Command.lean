import ShipBridge.Json.Printer
import ShipBridge.Json.Record

/-!
# Commands

What a client asks of a ship. A command is written as an object whose first member, `action`,
names it; commands travel in batches, written as arrays. A batch is read one command at a time: one
that does not fit is refused before what follows it is looked at.
-/

namespace ShipBridge.Wire

inductive Command where
  | poke (id : Nat) (ship app mark : String) (json : Json)
  | subscribe (id : Nat) (ship app path : String)
  | unsubscribe (id subscription : Nat)
  | ack (eventId : Nat)
deriving DecidableEq, Inhabited

namespace Command

/-- The number that answers to a command carry. An acknowledgment has none. -/
def id? : Command → Option Nat
  | .poke id .. | .subscribe id .. | .unsubscribe id _ => some id
  | .ack _ => none

def members : Command → List (String × Json)
  | .poke id ship app mark json =>
    [("action", .string "poke"), ("id", .ofNat id), ("ship", .string ship),
      ("app", .string app), ("mark", .string mark), ("json", json)]
  | .subscribe id ship app path =>
    [("action", .string "subscribe"), ("id", .ofNat id), ("ship", .string ship),
      ("app", .string app), ("path", .string path)]
  | .unsubscribe id subscription =>
    [("action", .string "unsubscribe"), ("id", .ofNat id), ("subscription", .ofNat subscription)]
  | .ack eventId => [("action", .string "ack"), ("event-id", .ofNat eventId)]

def text (c : Command) : String := Json.recordText c.members

def batchText (batch : List Command) : String :=
  (Json.array (batch.map fun c => .object c.members)).text

def known (action : String) : Bool :=
  action == "poke" || action == "subscribe" || action == "unsubscribe" || action == "ack"

open Json in
def ofRecord? (action : String) (r : Record) : Option Command := do
  if action == "poke" then
    match ← r.values? [⟨"id", true⟩, ⟨"ship", true⟩, ⟨"app", true⟩, ⟨"mark", true⟩,
        ⟨"json", true⟩] with
    | [some id, some ship, some app, some mark, some json] =>
      return .poke (← id.nat?) (← ship.string?) (← app.string?) (← mark.string?) json.normalize
    | _ => none
  else if action == "subscribe" then
    match ← r.values? [⟨"id", true⟩, ⟨"ship", true⟩, ⟨"app", true⟩, ⟨"path", true⟩] with
    | [some id, some ship, some app, some path] =>
      return .subscribe (← id.nat?) (← ship.string?) (← app.string?) (← path.string?)
    | _ => none
  else if action == "unsubscribe" then
    match ← r.values? [⟨"id", true⟩, ⟨"subscription", true⟩] with
    | [some id, some subscription] => return .unsubscribe (← id.nat?) (← subscription.nat?)
    | _ => none
  else if action == "ack" then
    match ← r.values? [⟨"event-id", true⟩] with
    | [some eventId] => return .ack (← eventId.nat?)
    | _ => none
  else none

def decode (cs : List Char) : Except Json.Fault Command :=
  Json.decodeTagged "action" known ofRecord? cs

open Json in
/-- The commands of a batch from the next one on, `acc` being those before it, last first. -/
def readCommands (fuel : Nat) (acc : List Command) (cs : List Char) : Reading (List Command) :=
  match fuel with
  | 0 => .error .notJson
  | fuel + 1 => match readTagged "action" known (depthLimit - 2) cs with
    | .error e => .error e
    | .ok ((action, record), cs) => match ofRecord? action record with
      | none => .error .shape
      | some c => match readSeparator ']' cs with
        | .error e => .error e
        | .ok (.close rest) => .ok ((c :: acc).reverse, rest)
        | .ok (.more rest) => readCommands fuel (c :: acc) rest

open Json in
def readBatch (cs : List Char) : Reading (List Command) :=
  match skipSpace cs with
  | '[' :: cs => match skipSpace cs with
    | [] => .error .cutShort
    | ']' :: rest => .ok ([], rest)
    | cs => readCommands cs.length [] cs
  | '\x7b' :: _ => .error .shape
  | cs => match readRoot cs with
    | .error e => .error e
    | .ok _ => .error .shape

def decodeBatch (cs : List Char) : Except Json.Fault (List Command) := do
  let (batch, rest) ← readBatch cs
  Json.expectEnd rest
  return batch

end ShipBridge.Wire.Command
