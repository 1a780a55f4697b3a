import ShipBridge.Relay.Fault

/-!
# Requests that wait for the ship

Each request forwarded to the ship carries a correlation id and waits until an update with that
id comes back. An update without an id is a notification for the editor; one with an id that
nothing waits for is passed over.
-/

namespace ShipBridge.Relay

abbrev Outcome := Except Fault Json

/-- The entries, as pairs of correlation id and slot number, and the slots: what each request
ever entered has come to, once something has. -/
structure Pending where
  entries : List (String × Nat) := []
  slots : List (Option Outcome) := []

namespace Pending

def slot? (p : Pending) (n : Nat) : Option Outcome := (p.slots[n]?).join

def size (p : Pending) : Nat := p.entries.length

def erase (p : Pending) (key : String) : Pending :=
  { p with entries := p.entries.filter fun (k, _) => k != key }

def enter (p : Pending) (key : String) : Nat × Pending :=
  (p.slots.length, ⟨(key, p.slots.length) :: (p.erase key).entries, p.slots ++ [none]⟩)

def resolve (p : Pending) (key : String) (o : Outcome) : Pending :=
  match p.entries.lookup key with
  | none => p
  | some n => { (p.erase key) with slots := p.slots.set n (some o) }

def failAll (p : Pending) (f : Fault) : Pending where
  entries := []
  slots := p.entries.foldl (fun slots (_, n) => slots.set n (some (.error f))) p.slots

end Pending

inductive Update where
  | answer (key : String) (outcome : Outcome)
  | notification (method : String) (params : Option Json)
  | stray

/-- A refusal as the ship reports it: the code unless it is no 64-bit integer, the message unless
it is no string, and the data if there is any. -/
def remoteFault (error : Json) : Fault :=
  .remote (((error.get? "code").bind Json.int64?).getD (-32603))
    (((error.get? "message").bind Json.string?).getD error.text) (error.get? "data")

/-- An id as a correlation id: a string as it is, anything else by its text. -/
def correlation : Json → String
  | .string s => s
  | j => j.text

def Update.ofJson (update : Json) : Update :=
  match update.get? "id" with
  | some id => .answer (correlation id) (match update.get? "error" with
    | some error => .error (remoteFault error)
    | none => .ok ((update.get? "result").getD .null))
  | none => match (update.get? "method").bind Json.string? with
    | some method => .notification method (update.get? "params")
    | none => .stray

/-- What is poked at the ship for a message of the editor; only a request carries an id. -/
def envelope (id : Option String) (method : String) (params : Option Json) : Json :=
  .object ((id.map fun id => ("id", .string id)).toList ++
    [("jsonrpc", .string "2.0"), ("method", .string method), ("params", params.getD .null)])

end ShipBridge.Relay
