import ShipBridge.Session.Fault
import ShipBridge.Json.Basic

/-!
# Open subscriptions

Each open subscription is entered under its id with the number of diffs it has been offered and a
ticket. The ticket stands for a mailbox: what has been delivered to it, in order, and whether it
is still attached to an entry. A terminal event ends the entry, so nothing follows it in the
mailbox.
-/

namespace ShipBridge.Session

inductive Notice where
  | diff (json : Json)
  | refused (message : String)
  | quit
deriving DecidableEq, Inhabited

structure Mailbox where
  notices : List Notice := []
  attached : Bool := true
  abandoned : Bool := false
deriving Inhabited

structure Entry where
  ticket : Nat
  diffs : Nat := 0
deriving DecidableEq, Repr, Inhabited

inductive Delivery where
  | delivered
  | terminated
  | ignored
  | unknown
deriving DecidableEq, Repr

structure Subscriptions where
  entries : List (Nat × Entry) := []
  mailboxes : List Mailbox := []
deriving Inhabited

namespace Subscriptions

def entry? (s : Subscriptions) (id : Nat) : Option Entry := s.entries.lookup id

def mailbox (s : Subscriptions) (ticket : Nat) : Mailbox :=
  s.mailboxes.getD ticket { attached := false }

def setMailbox (s : Subscriptions) (ticket : Nat) (m : Mailbox) : Subscriptions :=
  { s with mailboxes := s.mailboxes.set ticket m }

def post (s : Subscriptions) (ticket : Nat) (n : Notice) : Subscriptions :=
  let m := s.mailbox ticket
  if m.abandoned then s else s.setMailbox ticket { m with notices := m.notices ++ [n] }

def detach (s : Subscriptions) (ticket : Nat) : Subscriptions :=
  s.setMailbox ticket { s.mailbox ticket with attached := false }

def erase (s : Subscriptions) (id : Nat) : Subscriptions :=
  { s with entries := s.entries.filter fun (i, _) => i != id }

/-- Enter `id` with a new mailbox. The mailbox of an entry that was there before is detached. -/
def register (s : Subscriptions) (id : Nat) : Nat × Subscriptions :=
  let s := match s.entry? id with
    | some e => (s.detach e.ticket).erase id
    | none => s
  let ticket := s.mailboxes.length
  (ticket, ⟨(id, { ticket }) :: s.entries, s.mailboxes ++ [({} : Mailbox)]⟩)

/-- Deliver a diff. If nobody holds the mailbox any more, the entry is dropped. -/
def deliver (s : Subscriptions) (id : Nat) (json : Json) : Delivery × Subscriptions :=
  match s.entry? id with
  | none => (.unknown, s)
  | some e =>
    if (s.mailbox e.ticket).abandoned then (.terminated, (s.detach e.ticket).erase id)
    else
      let entries := s.entries.map fun (i, f) => if i = id then (i, { f with diffs := f.diffs + 1 })
        else (i, f)
      (.delivered, { s with entries }.post e.ticket (.diff json))

def terminate (s : Subscriptions) (id : Nat) (n : Notice) : Delivery × Subscriptions :=
  match s.entry? id with
  | none => (.unknown, s)
  | some e => (.terminated, ((s.post e.ticket n).detach e.ticket).erase id)

/-- Refuse a subscription. Once it has been offered a diff it is evidently live, and the refusal
is passed over. -/
def reject (s : Subscriptions) (id : Nat) (message : String) : Delivery × Subscriptions :=
  match s.entry? id with
  | none => (.unknown, s)
  | some e => if e.diffs = 0 then s.terminate id (.refused message) else (.ignored, s)

def quit (s : Subscriptions) (id : Nat) : Delivery × Subscriptions := s.terminate id .quit

def remove (s : Subscriptions) (id : Nat) : Bool × Subscriptions :=
  match s.entry? id with
  | none => (false, s)
  | some e => (true, (s.detach e.ticket).erase id)

def terminateAll (s : Subscriptions) (reason : String) : Nat × Subscriptions :=
  let ended := s.entries.foldl
    (fun s (_, e) => (s.post e.ticket (.refused reason)).detach e.ticket) s
  (s.entries.length, { ended with entries := [] })

/-- The holder of a mailbox stops listening; one that is detached already is left as it is. -/
def abandon (s : Subscriptions) (ticket : Nat) : Bool × Subscriptions :=
  let m := s.mailbox ticket
  if m.abandoned || !m.attached then (false, s)
  else (true, s.setMailbox ticket { m with abandoned := true })

def size (s : Subscriptions) : Nat := s.entries.length

end Subscriptions

end ShipBridge.Session
