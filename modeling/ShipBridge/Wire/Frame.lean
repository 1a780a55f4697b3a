import ShipBridge.Json.Printer
import ShipBridge.Json.Record

/-!
# Frames

What a ship sends back on the event stream of a session. The member `response` names the kind of
a frame. For the answers to a poke and to a subscribe it matters whether `ok` and `err` are
present, a null included; a diff without `json` carries null.
-/

namespace ShipBridge.Wire

inductive Frame where
  | poke (id : Nat) (ok err : Option Json)
  | subscribe (id : Nat) (ok err : Option Json)
  | diff (id : Nat) (json : Json)
  | quit (id : Nat)
deriving DecidableEq, Inhabited

namespace Frame

def id : Frame → Nat
  | .poke id .. | .subscribe id .. | .diff id _ | .quit id => id

def known (response : String) : Bool :=
  response == "poke" || response == "subscribe" || response == "diff" || response == "quit"

open Json in
def ofRecord? (response : String) (r : Record) : Option Frame := do
  if response == "poke" || response == "subscribe" then
    match ← r.values? [⟨"id", true⟩, .optional "ok", .optional "err"] with
    | [some id, ok, err] =>
      let id ← id.nat?
      let ok := ok.map normalize
      let err := err.map normalize
      return if response == "poke" then .poke id ok err else .subscribe id ok err
    | _ => none
  else if response == "diff" then
    match ← r.values? [⟨"id", true⟩, .optional "json"] with
    | [some id, json] => return .diff (← id.nat?) ((json.map normalize).getD .null)
    | _ => none
  else if response == "quit" then
    match ← r.values? [⟨"id", true⟩] with
    | [some id] => return .quit (← id.nat?)
    | _ => none
  else none

def decode (cs : List Char) : Except Json.Fault Frame :=
  Json.decodeTagged "response" known ofRecord? cs

end Frame

/-- A refusal as text: a string as it is, a list of strings line by line, anything else as JSON. -/
def refusalText : Json → String
  | .string s => s
  | .array items =>
    if items.all fun j => j.string?.isSome then
      "\n".intercalate (items.filterMap Json.string?)
    else (Json.array items).text
  | j => j.text

end ShipBridge.Wire
