import ShipBridge.Relay.Machine

/-!
# A scripted ship

A rehearsal runs the bridge against a ship whose behaviour is laid down beforehand: what becomes
of each batch and of each attempt to open the stream, and when events arrive. A plan may hold an
attempt until it is released, or let frames arrive before a batch counts as delivered. Where no
plan is left, batches are delivered and the stream opens or not as the script's default says.
-/

namespace ShipBridge.Rehearsal

open Session (Answer)

inductive BatchPlan where
  | answer (a : Answer)
  | hold
  | push (frames : List String) (a : Answer)

inductive OpenPlan where
  | answer (a : Answer)
  | hold

structure Script where
  batches : List BatchPlan := []
  opens : List OpenPlan := []
  discards : List Answer := []
  openDefault : OpenPlan := .answer (.ok ())

def Script.nextBatch (s : Script) : BatchPlan × Script :=
  match s.batches with
  | [] => (.answer (.ok ()), s)
  | p :: ps => (p, { s with batches := ps })

def Script.nextOpen (s : Script) : OpenPlan × Script :=
  match s.opens with
  | [] => (s.openDefault, s)
  | p :: ps => (p, { s with opens := ps })

def Script.nextDiscard (s : Script) : Answer × Script :=
  match s.discards with
  | [] => (.ok (), s)
  | a :: as => (a, { s with discards := as })

/-- Replace those plans that are given anew; the others stand. -/
def Script.replace (s : Script) (batches : Option (List BatchPlan)) (opens : Option (List OpenPlan))
    (discards : Option (List Answer)) (openDefault : Option OpenPlan) : Script :=
  ⟨batches.getD s.batches, opens.getD s.opens, discards.getD s.discards,
    openDefault.getD s.openDefault⟩

inductive Cue where
  | call (c : Relay.Call)
  | outcome (of_ : Nat)
  | await (of_ : Nat)
  | dropPoke (of_ : Nat)
  | dropSubscription (id : Nat)
  | dropRequest (of_ : Nat)
  | connect
  | forget (id : Nat)
  | look
  | advance (millis : Nat)
  | frames (frames : List String)
  | items (items : List EventStream.Item)
  | body (chunks : List EventStream.Chunk)
  | endStream
  | plan (batches : Option (List BatchPlan)) (opens : Option (List OpenPlan))
    (discards : Option (List Answer)) (openDefault : Option OpenPlan)
  | releaseBatch (p : BatchPlan)
  | releaseOpen (p : OpenPlan)
  | update (json : Json)
  | dropEditor
  | input (bytes : List UInt8)
  | endInput

inductive Note where
  | flag (b : Bool)
  | noPoke
  | noStream
  | nothingHeld
  | noRequest
  | inputClosed

end ShipBridge.Rehearsal
