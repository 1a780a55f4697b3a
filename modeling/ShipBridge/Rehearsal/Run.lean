import ShipBridge.Rehearsal.Script

/-!
# Running a rehearsal

Jobs whose wait is over stand in a queue, and the one at its head runs until it has to wait
again; those that this sets free join the end of the queue. A cue is performed, then everything
runs that can run without time passing, and then a report says what became visible. Time passes
only on a cue, from one timer to the next.
-/

namespace ShipBridge.Rehearsal

open Session (Answer Notice)
open Relay (Machine Task Output Holding Surroundings)

structure Watched where
  id : Nat
  ticket : Nat
  seen : Nat := 0
  ended : Bool := false

structure Report where
  batches : List (List Wire.Command) := []
  opens : List (Option Nat) := []
  discards : Nat := 0
  finished : List (Nat × Relay.Result) := []
  messages : List Editor.Message := []
  /-- By subscription: its id, what it brought, and whether it is over. -/
  notices : List (Nat × List Notice × Bool) := []

structure Stage where
  machine : Machine := {}
  queue : List Nat := []
  script : Script := {}
  batchHeld : Bool := false
  /-- The outcome of a batch that is delivered once all it set off has been dealt with. -/
  pushing : Option Answer := none
  openHeld : Bool := false
  /-- How many events the ship has numbered. -/
  numbered : Nat := 0
  /-- Do streams carry bytes? Then this decodes them. -/
  raw : Bool := false
  decoder : EventStream.Decoder := {}
  held : List (Nat × Holding) := []
  watched : List Watched := []
  report : Report := {}

namespace Stage

variable (e : Surroundings) (s : Stage)

def isReading : Bool := s.machine.session.stream == .reading

def isOpening : Bool := match s.machine.session.stream with
  | .opening .. => true
  | _ => false

def pushItems (items : List EventStream.Item) : Stage :=
  if s.isReading then
    { s with machine := { s.machine with items := s.machine.items ++ items } }
  else s

def pushChunk (c : EventStream.Chunk) : Stage :=
  if s.isReading then
    let (decoder, items) := s.decoder.chunk c
    { s with decoder }.pushItems items
  else s

def pushFrame (data : String) : Stage :=
  let number := toString (s.numbered + 1)
  let s := { s with numbered := s.numbered + 1 }
  if s.raw then
    s.pushChunk (.bytes (Utf8.encode s!"id: {number}\ndata: {data}\n\n".toList))
  else s.pushItems [.ok { id := some number, data }]

def pushFrames (frames : List String) : Stage := frames.foldl pushFrame s

def planBatch : BatchPlan → Stage
  | .answer a => { s with machine := { s.machine with delivered := some a } }
  | .hold => { s with batchHeld := true }
  | .push frames a => { s.pushFrames frames with pushing := some a }

def planOpen : OpenPlan → Stage
  | .answer a => { s with machine := { s.machine with reached := some a }, decoder := {} }
  | .hold => { s with openHeld := true }

/-- Take in one output: note it for the report, and let the ship react. -/
def react : Output → Stage
  | .put batch =>
    let (plan, script) := s.script.nextBatch
    let report := { s.report with batches := s.report.batches ++ [batch] }
    { s with script, report }.planBatch plan
  | .opening resume =>
    let (plan, script) := s.script.nextOpen
    let report := { s.report with opens := s.report.opens ++ [resume] }
    { s with script, report }.planOpen plan
  | .discard =>
    let (a, script) := s.script.nextDiscard
    { s with
      script
      report := { s.report with discards := s.report.discards + 1 }
      machine := { s.machine with discarded := some a } }
  | .message m => { s with report := { s.report with messages := s.report.messages ++ [m] } }
  | .finished caller r held =>
    let report := { s.report with finished := s.report.finished ++ [(caller, r)] }
    let s := { s with report }
    match held with
    | none => s
    | some (.subscription id ticket) => { s with watched := s.watched ++ [{ id, ticket }] }
    | some h => { s with held := (caller, h) :: s.held }

/-- Of several jobs set free at once, those that use the line come first, then those that wait for
answers, then those that follow a subscription, then the rest. -/
def rank : Task → Nat
  | .sending _ => 0
  | .outcome .. | .await .. | .watch .. => 1
  | .follow .. => 2
  | _ => 3

def enqueue : Stage :=
  let free := s.machine.jobs.filter fun (j, t) =>
    !s.queue.contains j && s.machine.readyTask e j t
  let ranked := [0, 1, 2, 3].flatMap fun n => free.filter fun (_, t) => rank t == n
  { s with queue := s.queue ++ ranked.map Prod.fst }

def reactAll : Stage :=
  let outputs := s.machine.log.reverse
  outputs.foldl react { s with machine := { s.machine with log := [] } }

/-- Run everything that can run now, in at most `fuel` steps. -/
def settle (s : Stage) : (fuel : Nat) → Stage
  | 0 => s
  | fuel + 1 => match s.queue with
    | j :: rest =>
      if s.machine.ready e j then
        ({ s with machine := s.machine.step e j }.reactAll.enqueue e).settle fuel
      else { s with queue := rest }.settle fuel
    | [] => match s.pushing with
      | some a =>
        let machine := { s.machine with delivered := some a }
        ({ s with machine, pushing := none }.enqueue e).settle fuel
      | none => s

def run (fuel : Nat) : Stage := (s.enqueue e).settle e fuel

/-- The earliest moment up to `target` that a job waits for. -/
def nextDue? (target : Nat) : Option Nat :=
  let dues := s.machine.jobs.filterMap fun (_, t) =>
    (Relay.Machine.Task.timer? t).map Relay.Timer.due
  (dues.filter (· ≤ target)).min?

/-- The jobs whose timers are due, in the order in which the timers were set. -/
def dueJobs : List Nat :=
  let due := s.machine.jobs.filterMap fun (j, t) => match Relay.Machine.Task.timer? t with
    | some timer => if timer.due ≤ s.machine.now then some (timer.serial, j) else none
    | none => none
  (due.mergeSort fun a b => a.1 ≤ b.1).map Prod.snd

/-- Let time pass until `target`, stopping at each timer on the way; `stops` bounds their
number. -/
def passTo (s : Stage) (target steps : Nat) : (stops : Nat) → Stage
  | 0 => s
  | stops + 1 => match s.nextDue? target with
    | none => { s with machine := { s.machine with now := max s.machine.now target } }
    | some due =>
      let s := { s with machine := { s.machine with now := max s.machine.now due } }
      let s := { s with queue := s.queue ++ s.dueJobs }
      (s.run e steps).passTo target steps stops

/-- More steps than any rehearsal takes between two cues. -/
def manySteps : Nat := 1000000

def holding? (n : Nat) : Option Holding := s.held.lookup n

def release (n : Nat) : Stage := { s with held := s.held.filter fun (i, _) => i != n }

def start (n : Nat) (c : Relay.Call) : Stage :=
  { s with machine := s.machine.spawn (.start n c) }

def converses : Bool :=
  !s.machine.inputEnded && s.machine.jobs.any fun (_, t) => match t with
    | .converse _ | .start _ .converse => true
    | .sending (.notification (.editor _) ..) | .sending (.request (.editor ..) _) => true
    | _ => false

def perform (n : Nat) : Cue → Option Note × Stage
  | .call c => (none, s.start n c)
  | .outcome k => match s.holding? k with
    | some (.poke ticket) => (none, (s.release k).start n (.outcome ticket))
    | _ => (some .noPoke, s)
  | .await k => match s.holding? k with
    | some (.request f) => (none, (s.release k).start n (.await f))
    | _ => (some .noRequest, s)
  | .dropPoke k => match s.holding? k with
    | some (.poke _) => (some (.flag true), s.release k)
    | _ => (some (.flag false), s)
  | .dropRequest k => match s.holding? k with
    | some (.request _) => (some (.flag true), s.release k)
    | _ => (some (.flag false), s)
  | .dropSubscription id => match s.watched.find? fun w => w.id == id with
    | none => (some (.flag false), s)
    | some w =>
      let session := s.machine.session
      let subscriptions := (session.state.subscriptions.abandon w.ticket).2
      let machine := { s.machine with
        session := { session with state := { session.state with subscriptions } } }
      (some (.flag true), { s with machine, watched := s.watched.filter fun w => w.id != id })
  | .connect => (none, { s with machine := s.machine.withSession s.machine.session.connect })
  | .forget id =>
    let (found, session) := s.machine.session.forget id
    (some (.flag found), { s with machine := { s.machine with session } })
  | .look | .advance _ => (none, s)
  | .frames frames =>
    (if s.isReading || frames.isEmpty then none else some .noStream, s.pushFrames frames)
  | .items items =>
    (if s.isReading || items.isEmpty then none else some .noStream, s.pushItems items)
  | .body chunks =>
    (if s.isReading || chunks.isEmpty then none else some .noStream, chunks.foldl pushChunk s)
  | .endStream =>
    if s.isReading then
      let s := if s.raw then s.pushItems s.decoder.finish else s
      (none, { s with machine := { s.machine with streamEnded := true } })
    else (some .noStream, s)
  | .plan batches opens discards openDefault =>
    (none, { s with script := s.script.replace batches opens discards openDefault })
  | .releaseBatch p =>
    if s.batchHeld then (none, { s with batchHeld := false }.planBatch p)
    else (some .nothingHeld, s)
  | .releaseOpen p =>
    if s.openHeld && s.isOpening then (none, { s with openHeld := false }.planOpen p)
    else (some .nothingHeld, s)
  | .update json => (none, { s with machine := s.machine.route json })
  | .dropEditor => (none, { s with machine := { s.machine with outlet := .dropped } })
  | .input bytes =>
    if s.converses then
      (none, { s with machine := { s.machine with input := s.machine.input ++ bytes } })
    else (some .inputClosed, s)
  | .endInput =>
    if s.converses then (none, { s with machine := { s.machine with inputEnded := true } })
    else (some .inputClosed, s)

def news (w : Watched) : (Nat × List Notice × Bool) × Watched :=
  let mailbox := s.machine.session.state.subscriptions.mailbox w.ticket
  let ended := !mailbox.attached
  ((w.id, mailbox.notices.drop w.seen, ended), { w with seen := mailbox.notices.length, ended })

/-- Hand out the report and begin a new one. A subscription reported over is held no longer. -/
def takeReport : Report × Stage :=
  let news := s.watched.map s.news
  ({ s.report with notices := news.map Prod.fst },
    { s with watched := (news.map Prod.snd).filter fun w => !w.ended, report := {} })

def play (n : Nat) (c : Cue) : Option Note × Report × Stage :=
  let (note, s) := s.perform n c
  let s := (s.reactAll).run e manySteps
  let s := match c with
    | .advance millis => s.passTo e (s.machine.now + millis) manySteps manySteps
    | _ => s
  let (report, s) := s.takeReport
  (note, report, s)

end Stage

end ShipBridge.Rehearsal
