import ShipBridge.Editor.Dialogue

/-!
# Listening to an editor

One loop listens to the editor. When a whole frame has arrived it reads that frame and takes the
turn that the body calls for: it complains about a body that is no message, passes over a
response, and hands a request or a notification to the handler. While a call of the handler lasts
the loop does nothing else. It ends after the notification `exit` has been handled, when the input
ends between two frames, at a flaw in the framing, and when there is nobody left to take a
complaint.

How long a call of the handler lasts is not up to the loop, and meanwhile, or later, the handler
may put messages of its own on the way to the editor. What happens to the loop is therefore a list
of acts in any order; an act that cannot take place changes nothing.
-/

namespace ShipBridge.Editor

/-- What can be seen of a loop at work. The last is the doing of the handler. -/
inductive Mark where
  | heard (t : Turn)
  | complained (m : Message)
  | called (t : Turn)
  | returned (t : Turn)
  | said (m : Message)
deriving DecidableEq

/-- How the loop ends: without a fault, at a flaw, or with a complaint that nobody takes. -/
inductive Parting where
  | done
  | flawed (f : Framing.Flaw)
  | unheard
deriving DecidableEq

inductive Phase where
  | reading
  | calling (t : Turn)
  | stopped (p : Parting)
deriving DecidableEq

inductive Act where
  | arrives (bytes : List UInt8)
  | closes
  | polled
  | returns
  | speaks (m : Message)
  | hangsUp
deriving DecidableEq

/-- `held` has arrived and not been read, `closed` tells that no more will come, and `gone` that
nobody takes messages for the editor any more. The marks are listed latest first. -/
structure Listener where
  held : List UInt8 := []
  closed : Bool := false
  gone : Bool := false
  phase : Phase := .reading
  marks : List Mark := []

namespace Listener

variable (limit : Nat) (l : Listener)

def take (t : Turn) : Listener :=
  match t with
  | .unreadable f =>
    if l.gone then { l with phase := .stopped .unheard, marks := .heard t :: l.marks }
    else { l with marks := .complained (.unreadable f) :: .heard t :: l.marks }
  | .passed => { l with marks := .heard t :: l.marks }
  | .request .. | .notification .. =>
    { l with phase := .calling t, marks := .called t :: .heard t :: l.marks }

def poll : Listener :=
  match l.phase with
  | .reading => match Framing.scan limit l.closed l.held with
    | .frame body rest => { l with held := rest }.take (.ofBody body)
    | .flawed f => { l with phase := .stopped (.flawed f) }
    | .ended => { l with phase := .stopped .done }
    | .waiting => l
  | .calling _ | .stopped _ => l

def finish : Listener :=
  match l.phase with
  | .calling t =>
    { l with
      phase := if t.isExit then .stopped .done else .reading
      marks := .returned t :: l.marks }
  | .reading | .stopped _ => l

def act : Act → Listener
  | .arrives bytes => if l.closed then l else { l with held := l.held ++ bytes }
  | .closes => { l with closed := true }
  | .polled => l.poll limit
  | .returns => l.finish
  | .speaks m => if l.gone then l else { l with marks := .said m :: l.marks }
  | .hangsUp => { l with gone := true }

def run (as : List Act) : Listener := as.foldl (act limit) {}

end Listener

end ShipBridge.Editor
