import ShipBridge.Duration

/-!
# Retrying with growing delays

A policy gives the delay before each retry: the base delay times a power of the growth factor, at
most the greatest delay. With jitter the delay is then scaled by a factor from one half up to
three halves and capped again. A `Backoff` counts the failures since the last success and says
how long to wait, or that no further attempt is allowed; `attempts` runs one operation until it
succeeds, fails for good, or has been tried often enough.
-/

namespace ShipBridge.Retry

structure Policy where
  maxAttempts : Nat := 3
  baseDelay : Duration := .ofSeconds 1
  maxDelay : Duration := .ofSeconds 30
  growth : Float := 2.0
  jitter : Bool := true

/-- The arithmetic that a delay is computed in. -/
structure Arithmetic (α : Type) where
  one : α
  mul : α → α → α
  inverse : α → α
  min : α → α → α

/-- Repeated squaring: the product of the squares that the binary digits of `n` select. -/
def Arithmetic.powerFrom (A : Arithmetic α) (product square : α) (n : Nat) : Nat → α
  | 0 => product
  | fuel + 1 =>
    let product := if n % 2 = 1 then A.mul product square else product
    if n / 2 = 0 then product else A.powerFrom product (A.mul square square) (n / 2) fuel

/-- An integer power; the power for a negative exponent is the reciprocal. -/
def Arithmetic.power (A : Arithmetic α) (x : α) (n : Int) : α :=
  let p := A.powerFrom A.one x n.natAbs 33
  if n < 0 then A.inverse p else p

/-- A number below `2^32` read as a signed 32-bit word. -/
def asSigned (n : Nat) : Int := Int.bmod n 0x100000000

def Arithmetic.delay (A : Arithmetic α) (base cap growth : α) (attempt : Nat) : α :=
  A.min (A.mul base (A.power growth (asSigned attempt))) cap

/-- The lesser of two doubles; one that is not a number gives way to the other. -/
def leastFloat (a b : Float) : Float :=
  if a.isNaN then b else if b.isNaN then a else if b < a then b else a

def doubles : Arithmetic Float where
  one := 1.0
  mul := (· * ·)
  inverse x := 1.0 / x
  min := leastFloat

/-- The delay in seconds before retry number `attempt`, counted from zero, before any jitter. -/
def Policy.seconds (p : Policy) (attempt : Nat) : Float :=
  doubles.delay p.baseDelay.toFloat p.maxDelay.toFloat p.growth attempt

/-- The delay before retry number `attempt`; `none` when the policy's numbers yield no duration. -/
def Policy.delay? (p : Policy) (attempt : Nat) : Option Duration :=
  Duration.ofFloat? (p.seconds attempt)

def Policy.jittered? (p : Policy) (attempt : Nat) (factor : Float) : Option Duration :=
  Duration.ofFloat? (leastFloat (p.seconds attempt * factor) p.maxDelay.toFloat)

/-- The delay before retry number `attempt` when `factor` is drawn for the jitter, if there is to be
any. -/
def Policy.drawn? (p : Policy) (attempt : Nat) (factor : Float) : Option Duration :=
  if p.jitter then p.jittered? attempt factor else p.delay? attempt

/-- Do the delays for every jitter factor lie within `low` and `high`? A longer factor never gives
a shorter delay, so the two extreme factors decide. -/
def Policy.within? (p : Policy) (attempt : Nat) (low high : Duration) : Option Bool := do
  let shortest ← p.jittered? attempt 0.5
  let longest ← p.jittered? attempt 1.5
  return low.nanos ≤ shortest.nanos && longest.nanos ≤ high.nanos

/-- The number of failures since the last success. -/
structure Backoff where
  failures : Nat := 0
deriving DecidableEq, Repr, Inhabited

/-- Record a failure. The answer is the attempt number whose delay to wait, or `none` when as
many failures as the policy allows have been seen since the last success. -/
def Backoff.next (b : Backoff) (maxAttempts : Nat) : Option Nat × Backoff :=
  if maxAttempts ≤ b.failures then (none, b) else (some b.failures, ⟨b.failures + 1⟩)

def Backoff.reset (_ : Backoff) : Backoff := {}

section Loop

variable {ε α : Type}

inductive Deed where
  | called
  | slept (d : Duration)
deriving DecidableEq

inductive Ending (ε α : Type) where
  | returned (outcome : Except ε α)
  | overflowed
  | undelayed

/-- The loop between two passes: its counter, and what it has done so far. -/
structure Loop (ε α : Type) where
  counter : UInt32 := 0
  deeds : List Deed := []
  ending : Option (Ending ε α) := none

/-- The number after `n`, if it fits the word. -/
def next? (n : UInt32) : Option UInt32 :=
  if n.toNat + 1 < UInt32.size then some (n + 1) else none

/-- One pass. After a success the sum is wanted only for the log, and only if there were retries. -/
def Loop.pass (p : Policy) (retryable : ε → Bool) (factors : Nat → Float)
    (outcomes : Nat → Except ε α) (l : Loop ε α) : Loop ε α :=
  if l.ending.isSome then l else
    let outcome := outcomes (l.deeds.count Deed.called)
    let deeds := l.deeds ++ [Deed.called]
    match outcome with
    | .ok _ =>
      if 0 < l.counter ∧ next? l.counter = none then { l with deeds, ending := some .overflowed }
      else { l with deeds, ending := some (.returned outcome) }
    | .error e =>
      if !retryable e then { l with deeds, ending := some (.returned outcome) }
      else match next? l.counter with
      | none => { l with deeds, ending := some .overflowed }
      | some next =>
        if p.maxAttempts ≤ next.toNat then { l with deeds, ending := some (.returned outcome) }
        else match p.drawn? l.counter.toNat (factors l.counter.toNat) with
        | none => { l with deeds, ending := some .undelayed }
        | some d => { l with counter := next, deeds := deeds ++ [Deed.slept d] }

end Loop

/-- The record of a retried operation: the outcome returned, and the attempt number of each delay
that was waited for, in order. -/
structure Trial (ε α : Type) where
  outcome : Except ε α
  waits : List Nat

def stops (maxAttempts : Nat) (retryable : ε → Bool) (attempt : Nat) : Except ε α → Bool
  | .ok _ => true
  | .error e => !retryable e || maxAttempts ≤ attempt + 1

def attempts (maxAttempts : Nat) (retryable : ε → Bool) (outcomes : Nat → Except ε α)
    (attempt : Nat := 0) : Trial ε α :=
  let outcome := outcomes attempt
  if stops maxAttempts retryable attempt outcome then ⟨outcome, []⟩
  else if maxAttempts ≤ attempt + 1 then ⟨outcome, []⟩
  else
    let rest := attempts maxAttempts retryable outcomes (attempt + 1)
    ⟨rest.outcome, attempt :: rest.waits⟩
termination_by maxAttempts - attempt

/-- The outcome of a retried operation and the time of each call in milliseconds from its start;
`none` when a delay is no duration. -/
def Policy.schedule? (p : Policy) (waits : List Nat) : Option (List Nat) :=
  waits.foldlM (fun times attempt => do
    let d ← p.delay? attempt
    return (times.headD 0 + d.millisCeil) :: times) [0] |>.map List.reverse

end ShipBridge.Retry
