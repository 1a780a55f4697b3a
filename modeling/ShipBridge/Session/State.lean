import ShipBridge.EventStream.Decoder
import ShipBridge.Session.Pokes
import ShipBridge.Session.Subscriptions
import ShipBridge.Wire.Command
import ShipBridge.Wire.Frame

/-!
# What a session knows

The ship keeps every event that it sends until the client acknowledges it. A session counts the
last event received and the last one acknowledged; a batch of commands is preceded by an
acknowledgment whenever the second is behind the first. The acknowledged count moves when the
batch is built and moves back if the batch cannot be delivered, unless it has moved on meanwhile.

An event whose number is not above the last one received is a replay and is passed over. Any
other event is decoded as a frame and dispatched to the poke or subscription with the frame's
id; data that is no frame is passed over.
-/

namespace ShipBridge.Session

open Wire

inductive Connection where
  | disconnected
  | connected
  | closed
deriving DecidableEq, Repr, Inhabited

structure State where
  nextId : Nat := 1
  receivedAny : Bool := false
  received : Nat := 0
  acknowledged : Nat := 0
  pokes : Pokes := {}
  subscriptions : Subscriptions := {}
  connection : Connection := .disconnected
deriving Inhabited

structure Advance where
  before : Nat
  after : Nat
deriving DecidableEq, Repr

namespace State

def isClosed (s : State) : Bool := s.connection == .closed

def advance (s : State) : Advance × State :=
  (⟨s.acknowledged, s.received⟩, { s with acknowledged := s.received })

def takeAck (s : State) : Option Advance × State :=
  if s.received = s.acknowledged then (none, s)
  else
    let (a, s) := s.advance
    (some a, s)

/-- The batch that carries a command, with the move of the acknowledged count that it makes. -/
def batch (s : State) (c : Command) : List Command × Option Advance × State :=
  let (a, s) := s.takeAck
  ((a.map fun a => .ack a.after).toList ++ [c], a, s)

/-- Undo a move, unless a later one has followed. -/
def revert (s : State) (a : Advance) : State :=
  if s.acknowledged = a.after then { s with acknowledged := a.before } else s

/-- Take note of an event's number; `none` for a replay. -/
def note? (s : State) (number : Nat) : Option State :=
  if s.receivedAny ∧ number ≤ s.received then none
  else some { s with receivedAny := true, received := number }

/-- What a poke frame says: acceptance wins over refusal, and one of them must be present. -/
def pokeAnswer (id : Nat) : (ok err : Option Json) → Answer
  | some _, _ => .ok ()
  | none, some err => .error (.pokeFailed id (refusalText err))
  | none, none => .error (.invalidResponse id)

def dispatch (s : State) : Frame → State
  | .poke id ok err => { s with pokes := (s.pokes.resolve id (pokeAnswer id ok err)).2 }
  | .subscribe id _ (some err) =>
    { s with subscriptions := (s.subscriptions.reject id (refusalText err)).2 }
  | .subscribe _ _ none => s
  | .diff id json => { s with subscriptions := (s.subscriptions.deliver id json).2 }
  | .quit id => { s with subscriptions := (s.subscriptions.quit id).2 }

def accept (s : State) (data : String) : State :=
  match Frame.decode data.toList with
  | .ok frame => s.dispatch frame
  | .error _ => s

def handle (s : State) (e : EventStream.Event) : State :=
  match e.number? with
  | none => s.accept e.data
  | some n => match s.note? n with
    | none => s
    | some s => s.accept e.data

/-- The event after which a stream should resume. -/
def resumePoint (s : State) : Option Nat := if s.receivedAny then some s.received else none

/-- Close the session: fail every poke, end every subscription. `none` if it is closed already. -/
def tearDown? (s : State) (reason : String) : Option State :=
  if s.isClosed then none
  else some { s with
    connection := .closed
    pokes := (s.pokes.failAll .closed).2
    subscriptions := (s.subscriptions.terminateAll reason).2 }

def allocate (s : State) : Nat × State := (s.nextId, { s with nextId := s.nextId + 1 })

end State

end ShipBridge.Session
