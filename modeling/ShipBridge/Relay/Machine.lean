import ShipBridge.Editor.Dialogue
import ShipBridge.Relay.Pending
import ShipBridge.Relay.Settings
import ShipBridge.Session.Basic

/-!
# The bridge at work

The bridge keeps a number of jobs going. A job runs until it has to wait: for the line to the
ship, for the answer to a poke or to a request, for a notice on its subscription, for input, or
for a moment in time. `ready` says whether a job's wait is over and `step` runs it a little
further, so that a run of the bridge is any sequence of such steps, of things that happen
outside (a batch is delivered, an event arrives, the editor writes, time passes), and of calls.

Messages of the editor are poked at the ship in the order in which they arrive: the job that
reads them waits until each has been sent, and only the wait for an answer is a job of its own.
The notification of one method is sent once more after a delay, whatever became of the first
copy. The subscription to the ship's updates is opened again when it ends, after growing delays.
-/

namespace ShipBridge.Relay

open Session (Answer Receipt)

/-- A moment to wait for, in milliseconds. Of equal moments the one set first comes first. -/
structure Timer where
  due : Nat
  serial : Nat
deriving DecidableEq, Repr

/-- A request on its way: its correlation id, where its answer will be, and the poke that carried
it. -/
structure Forwarded where
  correlation : String
  method : String
  slot : Nat
  poke : Nat
  ticket : Nat
deriving DecidableEq, Repr

/-- On whose behalf a request was forwarded: a caller, told by number, or the editor, whose
conversation has a number too. -/
inductive Origin where
  | caller (n : Nat)
  | editor (conversation : Nat) (id : Json)

inductive Source where
  | caller (n : Nat)
  | editor (conversation : Nat)

inductive Call where
  | poke (ship app mark : String) (json : Json) (wait : Bool)
  | outcome (ticket : Nat)
  | subscribe (ship app path : String)
  | unsubscribe (subscription : Nat)
  | close
  | serve
  | notify (method : String) (params : Option Json)
  | request (method : String) (params : Option Json)
  | forward (method : String) (params : Option Json)
  | await (f : Forwarded)
  | converse

/-- What a job sends for, and so what it does once the sending has ended. -/
inductive Purpose where
  | poke (caller id ticket : Nat) (wait : Bool)
  | subscribe (caller id ticket : Nat)
  | unsubscribe (caller : Nat)
  | acknowledge
  | serve (caller ticket : Nat)
  | resubscribe (ticket : Nat) (backoff : Retry.Backoff)
  | notification (source : Source) (method : String) (envelope : Json) (id ticket : Nat)
  | copy (id ticket : Nat)
  | request (origin : Origin) (f : Forwarded)
  | forward (caller : Nat) (f : Forwarded)

inductive Task where
  | start (caller : Nat) (c : Call)
  | sending (p : Purpose)
  | outcome (caller ticket : Nat)
  | closing (caller : Nat)
  | acknowledge
  | watch (id ticket : Nat) (until_ : Timer)
  | redeliver (envelope : Json) (at_ : Timer)
  | await (origin : Origin) (f : Forwarded) (until_ : Timer)
  | follow (current : Option (Nat × Nat)) (backoff : Retry.Backoff)
  | pause (backoff : Retry.Backoff) (until_ : Timer)
  | stream (until_ : Option Timer)
  | converse (conversation : Nat)
  | hangUp

inductive Result where
  | ok (value : Json)
  | session (f : Session.Fault)
  | relay (f : Fault)

inductive Holding where
  | poke (ticket : Nat)
  | subscription (id ticket : Nat)
  | request (f : Forwarded)

inductive Output where
  | put (batch : List Wire.Command)
  | opening (resume : Option Nat)
  | discard
  | message (m : Editor.Message)
  | finished (caller : Nat) (r : Result) (held : Option Holding)

/-- The way to the editor. Once it has been dropped the next message fails to get through; what is
sent before that failure has been noticed is lost as well. -/
inductive Outlet where
  | open
  | dropped
  | failing
  | gone
deriving DecidableEq

/-- The surroundings of the bridge that do not change during a run: its settings, the delays
between attempts to open the stream, the limit on the size of a body, and the correlation ids
that it will give out. `factor` is the jitter that is drawn for each timer, by serial number, and
`answerFirst` tells by job whether a wait takes the answer to its request or the failure of its
poke, when it finds both. -/
structure Surroundings where
  settings : Settings
  reconnect : Retry.Policy
  limit : Nat
  correlate : Nat → String
  factor : Nat → Float := fun _ => 1.0
  answerFirst : Nat → Bool := fun _ => true

structure Machine where
  session : Session := {}
  pending : Pending := {}
  /-- How many correlation ids have been given out. -/
  issued : Nat := 0
  jobs : List (Nat × Task) := []
  /-- How many jobs there have ever been. -/
  born : Nat := 0
  now : Nat := 0
  /-- How many timers have ever been set. -/
  timers : Nat := 0
  /-- What became of the batch on its way, once that is known. -/
  delivered : Option Answer := none
  /-- What became of the attempt to open the stream. -/
  reached : Option Answer := none
  /-- What became of the attempt to discard the channel. -/
  discarded : Option Answer := none
  /-- What the stream has brought and the bridge has not yet read. -/
  items : List EventStream.Item := []
  streamEnded : Bool := false
  /-- What the editor has written and the bridge has not yet read. -/
  input : List UInt8 := []
  inputEnded : Bool := false
  outlet : Outlet := .open
  /-- Set when a policy's numbers yield no delay. -/
  stuck : Bool := false
  /-- Outputs, latest first. -/
  log : List Output := []

namespace Machine

variable (e : Surroundings) (m : Machine)

def emit (o : Output) : Machine := { m with log := o :: m.log }

def spawn (t : Task) : Machine :=
  { m with jobs := m.jobs ++ [(m.born, t)], born := m.born + 1 }

/-- What job `j` does next. -/
def become (j : Nat) (t : Task) : Machine :=
  { m with jobs := m.jobs.map fun (i, u) => if i = j then (i, t) else (i, u) }

def dismiss (j : Nat) : Machine := { m with jobs := m.jobs.filter fun (i, _) => i != j }

def finish (j caller : Nat) (r : Result) (held : Option Holding := none) : Machine :=
  (m.emit (.finished caller r held)).dismiss j

def timer (d : Duration) : Timer × Machine :=
  (⟨m.now + d.millisCeil, m.timers⟩, { m with timers := m.timers + 1 })

def isDue (t : Timer) : Bool := t.due ≤ m.now

/-- Replace the session; a stream that has just been born is a job of its own. -/
def withSession (s : Session) : Machine :=
  let before := m.session.stream
  let m := { m with session := s }
  if before = .unborn ∧ s.stream = .born then m.spawn (.stream none) else m

/-- Send a message to the editor. The first one after the editor has gone is lost, and when that
has been noticed there is nobody left to take any; the flag tells whether the message was taken. -/
def send (message : Editor.Message) : Bool × Machine :=
  match m.outlet with
  | .open => (true, m.emit (.message message))
  | .dropped => (true, { m with outlet := .failing }.spawn .hangUp)
  | .failing => (true, m)
  | .gone => (false, m)

def route (update : Json) : Machine :=
  match Update.ofJson update with
  | .answer key outcome => { m with pending := m.pending.resolve key outcome }
  | .notification method params => (m.send (.notify method params)).2
  | .stray => m

def failPending : Machine := { m with pending := m.pending.failAll .subscriptionLost }

/-- A job's attempt to send: it queues for the line, unless the session is closed. -/
def call? (j : Nat) (r : Session.Request) : Option (Receipt × Machine) :=
  (m.session.call? j r).map fun (receipt, s) => (receipt, m.withSession s)

def pokeRequest (mark : String) (envelope : Json) : Session.Request :=
  .poke e.settings.ship e.settings.app mark envelope

def subscription : Session.Request :=
  .subscribe e.settings.ship e.settings.app e.settings.path

/-- Forward a request: give it a correlation id, enter it, and queue for the line. -/
def forward? (j : Nat) (method : String) (params : Option Json) : Option Forwarded × Machine :=
  let key := e.correlate (m.issued + 1)
  let (slot, pending) := m.pending.enter key
  let m := { m with pending, issued := m.issued + 1 }
  match m.call? j (pokeRequest e requestMark (envelope (some key) method params)) with
  | some (.poke id ticket, m) => (some ⟨key, method, slot, id, ticket⟩, m)
  | _ => (none, { m with pending := m.pending.erase key })

def tell (j : Nat) (origin : Origin) (o : Outcome) : Machine :=
  match origin with
  | .caller n => m.finish j n (match o with
    | .ok v => .ok v
    | .error f => .relay f)
  | .editor _ id => (m.send (respond id o)).2.dismiss j

/-- The end of the wait for an answer; a request that failed leaves nothing behind. -/
def conclude (j : Nat) (origin : Origin) (f : Forwarded) (o : Outcome) : Machine :=
  let m := match o with
    | .ok _ => m
    | .error _ =>
      { m with
        pending := m.pending.erase f.correlation
        session := (m.session.forget f.poke).2 }
  m.tell j origin o

/-- After a notification has been sent, or could not be: see to its second copy. -/
def afterNotification (method : String) (envelope : Json) : Machine :=
  if method = e.settings.redelivered then
    let (t, m) := m.timer e.settings.notificationDelay
    m.spawn (.redeliver envelope t)
  else m

/-- The notification's sender goes on: a caller is told, a conversation continues or ends. -/
def resume (j : Nat) (source : Source) (method : String) : Machine :=
  match source with
  | .caller n => m.finish j n (.ok .null)
  | .editor conversation =>
    if method = exitMethod then m.finish j conversation (.ok .null)
    else m.become j (.converse conversation)

def startWatch (j : Nat) (id ticket : Nat) : Machine :=
  let (t, m) := m.timer e.settings.requestTimeout
  m.become j (.watch id ticket t)

def spawnWatch (id ticket : Nat) : Machine :=
  let (t, m) := m.timer e.settings.requestTimeout
  m.spawn (.watch id ticket t)

def startAwait (j : Nat) (origin : Origin) (f : Forwarded) : Machine :=
  let (t, m) := m.timer e.settings.requestTimeout
  match origin with
  | .caller _ => m.become j (.await origin f t)
  | .editor conversation _ => (m.spawn (.await origin f t)).become j (.converse conversation)

def refuse (j : Nat) (origin : Origin) (f : Fault) : Machine :=
  match origin with
  | .caller n => m.finish j n (.relay f)
  | .editor conversation id => (m.send (respond id (.error f))).2.become j (.converse conversation)

/-- The subscription is lost for good: nothing will answer the requests that still wait. -/
def abandon (j : Nat) : Machine := m.failPending.dismiss j

/-- Sending has ended. -/
def sent (j : Nat) (p : Purpose) (a : Answer) : Machine :=
  match p, a with
  | .poke caller id ticket wait, .ok () =>
    if wait then m.become j (.outcome caller ticket)
    else m.finish j caller (.ok (.ofNat id)) (some (.poke ticket))
  | .poke caller .., .error f => m.finish j caller (.session f)
  | .subscribe caller id ticket, .ok () =>
    m.finish j caller (.ok (.ofNat id)) (some (.subscription id ticket))
  | .subscribe caller .., .error f => m.finish j caller (.session f)
  | .unsubscribe caller, .ok () => m.finish j caller (.ok .null)
  | .unsubscribe caller, .error f => m.finish j caller (.session f)
  | .acknowledge, _ => m.dismiss j
  | .serve caller ticket, .ok () =>
    (m.spawn (.follow (some (ticket, 0)) {})).finish j caller (.ok .null)
  | .serve caller _, .error f =>
    (m.spawn (.follow none {})).finish j caller (.relay (.session f))
  | .resubscribe ticket backoff, .ok () => m.become j (.follow (some (ticket, 0)) backoff)
  | .resubscribe .., .error .closed => m.abandon j
  | .resubscribe _ backoff, .error _ => m.become j (.follow none backoff)
  | .notification source method envelope id ticket, .ok () =>
    ((m.spawnWatch e id ticket).afterNotification e method envelope).resume j source method
  | .notification source method envelope .., .error _ =>
    (m.afterNotification e method envelope).resume j source method
  | .copy id ticket, .ok () => m.startWatch e j id ticket
  | .copy .., .error _ => m.dismiss j
  | .request origin f, .ok () => m.startAwait e j origin f
  | .request origin f, .error fault =>
    ({ m with pending := m.pending.erase f.correlation }).refuse j origin (.session fault)
  | .forward caller f, .ok () => m.finish j caller (.ok (.string f.correlation)) (some (.request f))
  | .forward caller f, .error fault =>
    ({ m with pending := m.pending.erase f.correlation }).finish j caller (.relay (.session fault))

/-- A job that is sending makes use of the line, or learns what became of its batch. -/
def stepSending (j : Nat) (p : Purpose) : Machine :=
  match m.session.proceed? with
  | some (.send batch, s) => { m with session := s, delivered := none }.emit (.put batch)
  | some (.done a, s) => (m.withSession s).sent e j p a
  | none => match m.delivered with
    | none => m
    | some a => match m.session.settle? a with
      | none => m
      | some s => ({ m with delivered := none }.withSession s).sent e j p a

def notify (j : Nat) (source : Source) (method : String) (params : Option Json) : Machine :=
  let envelope := envelope none method params
  match m.call? j (pokeRequest e notificationMark envelope) with
  | some (.poke id ticket, m) =>
    m.become j (.sending (.notification source method envelope id ticket))
  | _ => (m.afterNotification e method envelope).resume j source method

/-- Forward a request on behalf of `origin`; the handshake is answered on the spot. -/
def request (j : Nat) (origin : Origin) (method : String) (params : Option Json) : Machine :=
  if method = handshakeMethod then
    match origin with
    | .caller n => m.finish j n (.ok capabilities)
    | .editor conversation id =>
      (m.send (respond id (.ok capabilities))).2.become j (.converse conversation)
  else match m.forward? e j method params with
    | (some f, m) => m.become j (.sending (.request origin f))
    | (none, m) => m.refuse j origin (.session .closed)

def stepStart (j caller : Nat) : Call → Machine
  | .poke ship app mark json wait => match m.call? j (.poke ship app mark json) with
    | some (.poke id ticket, m) => m.become j (.sending (.poke caller id ticket wait))
    | _ => m.finish j caller (.session .closed)
  | .outcome ticket => m.become j (.outcome caller ticket)
  | .subscribe ship app path => match m.call? j (.subscribe ship app path) with
    | some (.subscription id ticket, m) => m.become j (.sending (.subscribe caller id ticket))
    | _ => m.finish j caller (.session .closed)
  | .unsubscribe subscription => match m.call? j (.unsubscribe subscription) with
    | some (_, m) => m.become j (.sending (.unsubscribe caller))
    | _ => m.finish j caller (.session .closed)
  | .close =>
    let (told, s) := m.session.close
    let m := { m with session := s }
    if told then ({ m with discarded := none }.emit .discard).become j (.closing caller)
    else m.finish j caller (.ok .null)
  | .serve => match m.call? j (subscription e) with
    | some (.subscription _ ticket, m) => m.become j (.sending (.serve caller ticket))
    | _ => (m.spawn (.follow none {})).finish j caller (.relay (.session .closed))
  | .notify method params => m.notify e j (.caller caller) method params
  | .request method params => m.request e j (.caller caller) method params
  | .forward method params => match m.forward? e j method params with
    | (some f, m) => m.become j (.sending (.forward caller f))
    | (none, m) => m.finish j caller (.relay (.session .closed))
  | .await f => m.startAwait e j (.caller caller) f
  | .converse => m.become j (.converse caller)

/-- Look for the next attempt to subscribe. -/
def stepDetached (j : Nat) (backoff : Retry.Backoff) : Machine :=
  if m.session.state.isClosed then m.abandon j
  else match backoff.next e.settings.resubscribe.maxAttempts with
    | (none, _) => m.abandon j
    | (some attempt, backoff) =>
      match e.settings.resubscribe.drawn? attempt (e.factor m.timers) with
      | none => { m with stuck := true }.dismiss j
      | some d =>
        let (t, m) := m.timer d
        m.become j (.pause backoff t)

/-- Take the next notice off the subscription, or learn that it is over. -/
def stepFollow (j ticket seen : Nat) (backoff : Retry.Backoff) : Machine :=
  let mailbox := m.session.state.subscriptions.mailbox ticket
  match mailbox.notices[seen]? with
  | some (.diff update) => (m.route update).become j (.follow (some (ticket, seen + 1)) {})
  | some (.refused _) | some .quit => m.become j (.follow (some (ticket, seen + 1)) backoff)
  | none => m.become j (.follow none backoff)

def stepPause (j : Nat) (backoff : Retry.Backoff) : Machine :=
  match m.call? j (subscription e) with
  | some (.subscription _ ticket, m) => m.become j (.sending (.resubscribe ticket backoff))
  | _ => m.abandon j

/-- The stream failed, with this number of the delay to wait for, if any. -/
def pauseStream (j : Nat) (attempt : Option Nat) : Machine :=
  match attempt with
  | none => m.dismiss j
  | some n => match e.reconnect.drawn? n (e.factor m.timers) with
    | none => { m with stuck := true }.dismiss j
    | some d =>
      let (t, m) := m.timer d
      m.become j (.stream (some t))

def failStream (j : Nat) : Machine :=
  let (attempt, s) := m.session.fail? e.reconnect.maxAttempts
  { m with session := s, items := [], streamEnded := false, reached := none }.pauseStream e j
    attempt

def awakenStream (j : Nat) : Machine :=
  match m.session.awaken with
  | (some resume, s) =>
    { m with session := s, reached := none }.emit (.opening resume) |>.become j (.stream none)
  | (none, s) => { m with session := s }.dismiss j

def stepStream (j : Nat) : Machine :=
  if m.session.stop && m.session.stream.listens then
    { m with session := m.session.halt, items := [], streamEnded := false }.dismiss j
  else match m.session.stream with
    | .born | .pausing _ => m.awakenStream j
    | .opening .. => match m.reached with
      | none => m
      | some (.error _) => m.failStream e j
      | some (.ok ()) =>
        let (again, s) := m.session.opened
        let m := { m with session := s, reached := none, items := [], streamEnded := false }
        if again then m.spawn .acknowledge else m
    | .reading => match m.items with
      | .ok event :: items => { m with items, session := m.session.receive event }
      | .error _ :: _ => m.failStream e j
      | [] => if m.streamEnded then m.failStream e j else m
    | .unborn | .finished => m.dismiss j

def stepTurn (j conversation : Nat) : Editor.Turn → Machine
  | .request id method params => m.request e j (.editor conversation id) method params
  | .notification method params => m.notify e j (.editor conversation) method params
  | .passed => m
  | .unreadable f => match m.send (.unreadable f) with
    | (true, m) => m
    | (false, m) => m.finish j conversation (.relay (.io "client connection closed"))

def stepConverse (j conversation : Nat) : Machine :=
  match Editor.Framing.scan e.limit m.inputEnded m.input with
  | .frame body rest => { m with input := rest }.stepTurn e j conversation (.ofBody body)
  | .flawed f => m.finish j conversation (.relay (.ofFlaw f))
  | .ended => m.finish j conversation (.ok .null)
  | .waiting => m

/-- What a request comes to through the failure of the poke that carried it. -/
def failure? (f : Forwarded) : Option Outcome :=
  match (m.session.state.pokes.slot f.ticket).outcome? with
  | some (.error fault) => some (.error (.session fault))
  | _ => none

/-- What ends the wait of job `j` for the answer to a request before its time is up: the answer, or
the failure of the poke. -/
def verdict? (j : Nat) (f : Forwarded) : Option Outcome :=
  if e.answerFirst j then (m.pending.slot? f.slot).or (m.failure? f)
  else (m.failure? f).or (m.pending.slot? f.slot)

/-- Run a job a little further. -/
def stepTask (j : Nat) : Task → Machine
  | .start caller c => m.stepStart e j caller c
  | .sending p => m.stepSending e j p
  | .outcome caller ticket => match (m.session.state.pokes.slot ticket).outcome? with
    | some (.ok ()) => m.finish j caller (.ok .null)
    | some (.error f) => m.finish j caller (.session f)
    | none => m
  | .closing caller => match m.discarded with
    | some (.ok ()) => m.finish j caller (.ok .null)
    | some (.error f) => m.finish j caller (.session f)
    | none => m
  | .acknowledge =>
    { m with session := m.session.callAcknowledge j }.become j (.sending .acknowledge)
  | .watch id ticket t => match (m.session.state.pokes.slot ticket).outcome? with
    | some _ => m.dismiss j
    | none =>
      if m.isDue t then { m with session := (m.session.forget id).2 }.dismiss j else m
  | .redeliver envelope _ => match m.call? j (pokeRequest e notificationMark envelope) with
    | some (.poke id ticket, m) => m.become j (.sending (.copy id ticket))
    | _ => m.dismiss j
  | .await origin f t => match m.verdict? e j f with
    | some o => m.conclude j origin f o
    | none =>
      if m.isDue t then
        m.conclude j origin f (.error (.requestTimeout f.method e.settings.requestTimeout))
      else m
  | .follow (some (ticket, seen)) backoff => m.stepFollow j ticket seen backoff
  | .follow none backoff => m.stepDetached e j backoff
  | .pause backoff _ => m.stepPause e j backoff
  | .stream _ => m.stepStream e j
  | .converse conversation => m.stepConverse e j conversation
  | .hangUp => { m with outlet := .gone }.dismiss j

def task? (j : Nat) : Option Task := m.jobs.lookup j

def streamReady (until_ : Option Timer) : Bool :=
  (m.session.stop && m.session.stream.listens) || match m.session.stream with
    | .born | .unborn | .finished => true
    | .opening .. => m.reached.isSome
    | .reading => !m.items.isEmpty || m.streamEnded
    | .pausing _ => until_.all m.isDue

/-- Is the wait of a job with this task over? -/
def readyTask (j : Nat) : Task → Bool
  | .start .. | .acknowledge | .follow none _ | .hangUp => true
  | .sending _ => m.session.line.granted? == some j ||
    (m.session.line.sending? == some j && m.delivered.isSome)
  | .outcome _ ticket => (m.session.state.pokes.slot ticket).outcome?.isSome
  | .closing _ => m.discarded.isSome
  | .watch _ ticket t => (m.session.state.pokes.slot ticket).outcome?.isSome || m.isDue t
  | .redeliver _ t | .pause _ t => m.isDue t
  | .await _ f t => (m.verdict? e j f).isSome || m.isDue t
  | .follow (some (ticket, seen)) _ =>
    let mailbox := m.session.state.subscriptions.mailbox ticket
    seen < mailbox.notices.length || !mailbox.attached
  | .stream t => m.streamReady t
  | .converse _ => Editor.Framing.scan e.limit m.inputEnded m.input != .waiting

def ready (j : Nat) : Bool := (m.task? j).any (m.readyTask e j)

def step (j : Nat) : Machine :=
  match m.task? j with
  | some t => if m.readyTask e j t then m.stepTask e j t else m
  | none => m

def Task.timer? : Task → Option Timer
  | .watch _ _ t | .redeliver _ t | .await _ _ t | .pause _ t => some t
  | .stream t => t
  | _ => none

end Machine

end ShipBridge.Relay
