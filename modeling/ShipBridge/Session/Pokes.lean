import ShipBridge.Session.Fault

/-!
# Pokes that wait for their answer

Each waiting poke is entered under its id, together with a ticket. The ticket stands for the one
answer that whoever sent the poke was promised: it is attached while the entry lasts, and then it
holds the answer or is discarded. Its holder may also abandon it; the entry stays, but nothing
reaches the holder any more.
-/

namespace ShipBridge.Session

abbrev Answer := Except Fault Unit

inductive Slot where
  | waiting
  | answered (a : Answer)
  | discarded
  | abandoned
deriving Inhabited

/-- What the holder of a ticket learns; a discarded ticket counts as the end of the session. -/
def Slot.outcome? : Slot → Option Answer
  | .answered a => some a
  | .discarded => some (.error .closed)
  | .waiting | .abandoned => none

inductive Verdict where
  | resolved
  | failed
deriving DecidableEq, Repr

/-- The entries, latest first, as pairs of id and ticket, and the slot of each ticket ever handed
out, by number. -/
structure Pokes where
  entries : List (Nat × Nat) := []
  slots : List Slot := []
deriving Inhabited

namespace Pokes

def ticket? (p : Pokes) (id : Nat) : Option Nat := p.entries.lookup id

def slot (p : Pokes) (ticket : Nat) : Slot := p.slots.getD ticket .discarded

/-- Settle a ticket, unless its holder has gone. -/
def settle (p : Pokes) (ticket : Nat) (s : Slot) : Pokes :=
  match p.slot ticket with
  | .waiting => { p with slots := p.slots.set ticket s }
  | _ => p

def erase (p : Pokes) (id : Nat) : Pokes :=
  { p with entries := p.entries.filter fun (i, _) => i != id }

/-- Enter `id` with a new ticket. An entry that was there before loses its place, and its ticket
is discarded. -/
def register (p : Pokes) (id : Nat) : Nat × Pokes :=
  let p := match p.ticket? id with
    | some t => (p.settle t .discarded).erase id
    | none => p
  let ticket := p.slots.length
  (ticket, ⟨(id, ticket) :: p.entries, p.slots ++ [.waiting]⟩)

def resolve (p : Pokes) (id : Nat) (a : Answer) : Option Verdict × Pokes :=
  match p.ticket? id with
  | none => (none, p)
  | some t => (some (if a.isOk then .resolved else .failed), (p.settle t (.answered a)).erase id)

def remove (p : Pokes) (id : Nat) : Bool × Pokes :=
  match p.ticket? id with
  | none => (false, p)
  | some t => (true, (p.settle t .discarded).erase id)

def failAll (p : Pokes) (fault : Fault) : Nat × Pokes :=
  let settled := p.entries.foldl (fun p (_, t) => p.settle t (.answered (.error fault))) p
  (p.entries.length, { settled with entries := [] })

def abandon (p : Pokes) (ticket : Nat) : Bool × Pokes :=
  match p.slot ticket with
  | .waiting => (true, { p with slots := p.slots.set ticket .abandoned })
  | _ => (false, p)

def size (p : Pokes) : Nat := p.entries.length

end Pokes

end ShipBridge.Session
