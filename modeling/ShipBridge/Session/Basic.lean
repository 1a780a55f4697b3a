import ShipBridge.Session.State
import ShipBridge.Retry

/-!
# A session with a ship

Commands leave one batch at a time, in the order in which they were called for. A call first
registers what it waits for and queues for the line to the ship; when its turn comes it builds
its batch and sends it; when the batch has been delivered, or could not be, the line passes to the
next call in the queue. A call that fails takes back what it registered. The first delivered
command starts the event stream.

The event stream is opened, read until it ends or breaks, and opened again after a delay that
grows with each failure in a row; once the policy allows no further attempt the session closes.
A stream opened again after a failure sets off an acknowledgment of what has been received.

Every function here is one uninterrupted step of the session; a run is any sequence of them.
-/

namespace ShipBridge

open Wire

namespace Session

inductive Request where
  | poke (ship app mark : String) (json : Json)
  | subscribe (ship app path : String)
  | unsubscribe (subscription : Nat)

inductive Receipt where
  | poke (id ticket : Nat)
  | subscription (id ticket : Nat)
  | bare (id : Nat)
deriving DecidableEq, Repr

/-- What a caller wants to send: a command, or an acknowledgment of everything received. -/
inductive Freight where
  | command (c : Command)
  | acknowledgment
deriving DecidableEq

structure Errand where
  owner : Nat
  freight : Freight
deriving DecidableEq

/-- The line to the ship. It is granted to the call at the head of the queue, which may take some
time to make use of it; then a batch is on its way. -/
inductive Line where
  | free
  | granted (e : Errand) (waiting : List Errand)
  | sending (e : Errand) (batch : List Command) (advance : Option Advance)
    (waiting : List Errand)

/-- The event stream. `failures` counts those since the last success; `again` is set once there
has been any. -/
inductive Stream where
  | unborn
  | born
  | opening (resume : Option Nat) (backoff : Retry.Backoff) (again : Bool)
  | reading
  | pausing (backoff : Retry.Backoff)
  | finished
deriving DecidableEq, Repr

end Session

open Session in
/-- `stop` is the signal that ends the stream. It reaches the stream only if the stream has begun
to listen for it. -/
structure Session where
  state : State := {}
  line : Line := .free
  stream : Stream := .unborn
  stop : Bool := false

namespace Session

def Line.push (e : Errand) : Line → Line
  | .free => .granted e []
  | .granted f waiting => .granted f (waiting ++ [e])
  | .sending f batch advance waiting => .sending f batch advance (waiting ++ [e])

def Line.pass : List Errand → Line
  | [] => .free
  | e :: waiting => .granted e waiting

def Line.granted? : Line → Option Nat
  | .granted e _ => some e.owner
  | _ => none

def Line.sending? : Line → Option Nat
  | .sending e .. => some e.owner
  | _ => none

def State.register? (s : State) : Request → Option (Command × Receipt × State)
  | .poke ship app mark json =>
    if s.isClosed then none
    else
      let (id, s) := s.allocate
      let (ticket, pokes) := s.pokes.register id
      some (.poke id ship app mark json, .poke id ticket, { s with pokes })
  | .subscribe ship app path =>
    if s.isClosed then none
    else
      let (id, s) := s.allocate
      let (ticket, subscriptions) := s.subscriptions.register id
      some (.subscribe id ship app path, .subscription id ticket, { s with subscriptions })
  | .unsubscribe subscription =>
    if s.isClosed then none
    else
      let (id, s) := s.allocate
      some (.unsubscribe id subscription, .bare id, s)

def State.withdraw (s : State) : Command → State
  | .poke id .. => { s with pokes := (s.pokes.remove id).2 }
  | .subscribe id .. => { s with subscriptions := (s.subscriptions.remove id).2 }
  | .unsubscribe _ _ | .ack _ => s

variable (s : Session)

/-- A call begins: it registers and queues, or learns that the session is closed. -/
def call? (owner : Nat) (r : Request) : Option (Receipt × Session) :=
  match s.state.register? r with
  | none => none
  | some (c, receipt, state) =>
    some (receipt, { s with state, line := s.line.push ⟨owner, .command c⟩ })

def callAcknowledge (owner : Nat) : Session :=
  { s with line := s.line.push ⟨owner, .acknowledgment⟩ }

/-- Start the event stream unless it has been started or the session is closed. -/
def connect : Session :=
  match s.state.connection with
  | .disconnected =>
    { s with state := { s.state with connection := .connected }, stream := .born }
  | .connected | .closed => s

/-- The end of an errand, after the line has been passed on. -/
def conclude (c : Freight) (a : Answer) : Session :=
  match c, a with
  | .command _, .ok () => s.connect
  | .command c, .error _ => { s with state := s.state.withdraw c }
  | .acknowledgment, _ => s

/-- What a call does with the line once it is granted: a batch to deliver, or an end without
one. -/
inductive Move where
  | send (batch : List Command)
  | done (a : Answer)

/-- The call to which the line is granted makes use of it. -/
def proceed? : Option (Move × Session) :=
  match s.line with
  | .granted e waiting =>
    let stay (a : Answer) := some (.done a, { s with line := .pass waiting }.conclude e.freight a)
    if s.state.isClosed then stay (.error .closed)
    else match e.freight with
      | .command c =>
        let (batch, advance, state) := s.state.batch c
        some (.send batch, { s with state, line := .sending e batch advance waiting })
      | .acknowledgment =>
        if !s.state.receivedAny || s.state.acknowledged == s.state.received then stay (.ok ())
        else
          let (advance, state) := s.state.advance
          let batch := [.ack advance.after]
          some (.send batch, { s with state, line := .sending e batch (some advance) waiting })
  | _ => none

def settle? (a : Answer) : Option Session :=
  match s.line with
  | .sending e _ advance waiting =>
    let state := match a, advance with
      | .error _, some advance => s.state.revert advance
      | _, _ => s.state
    some ({ s with state, line := .pass waiting }.conclude e.freight a)
  | _ => none

def forget (id : Nat) : Bool × Session :=
  let (found, pokes) := s.state.pokes.remove id
  (found, { s with state := { s.state with pokes } })

/-- Does the stream hear the signal to stop? -/
def Stream.listens : Stream → Bool
  | .opening .. | .reading | .pausing _ => true
  | .unborn | .born | .finished => false

def tearDown (reason : String) : Bool × Session :=
  match s.state.tearDown? reason with
  | none => (false, s)
  | some state => (true, { s with state, stop := s.stop || s.stream.listens })

/-- Close the session. The flag tells whether the ship has to be told. -/
def close : Bool × Session := s.tearDown "channel closed"

def open? (backoff : Retry.Backoff) (again : Bool) : Option (Option Nat) × Session :=
  if s.stop then (none, { s with stream := .finished })
  else
    let resume := s.state.resumePoint
    (some resume, { s with stream := .opening resume backoff again })

/-- The stream takes its first step, or wakes from its delay. The answer is the point to resume
from if it goes on to open. -/
def awaken : Option (Option Nat) × Session :=
  match s.stream with
  | .born => s.open? {} false
  | .pausing backoff => s.open? backoff true
  | _ => (none, s)

/-- The stream is open. The flag tells whether to set off an acknowledgment. -/
def opened : Bool × Session :=
  match s.stream with
  | .opening _ _ again => (again, { s with stream := .reading })
  | _ => (false, s)

/-- The stream failed `backoff` times before and now fails once more. The answer is the number of
the delay to wait for; without one the session closes. -/
def retry? (maxAttempts : Nat) (backoff : Retry.Backoff) : Option Nat × Session :=
  match backoff.next maxAttempts with
  | (some attempt, backoff) => (some attempt, { s with stream := .pausing backoff })
  | (none, _) =>
    let (_, s) := s.tearDown "event stream lost"
    (none, { s with stream := .finished })

/-- The stream could not be opened, has ended, or has broken. -/
def fail? (maxAttempts : Nat) : Option Nat × Session :=
  match s.stream with
  | .opening _ backoff _ => s.retry? maxAttempts backoff
  | .reading => s.retry? maxAttempts {}
  | _ => (none, s)

def receive (e : EventStream.Event) : Session :=
  match s.stream with
  | .reading => { s with state := s.state.handle e }
  | _ => s

/-- The stream heeds the signal to stop. -/
def halt : Session :=
  if s.stop && s.stream.listens then { s with stream := .finished } else s

end Session

end ShipBridge
