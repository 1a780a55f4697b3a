import Mathlib.Data.List.Basic
import Mathlib.Tactic.SplitIfs
import ShipBridge.Session.Basic

/-!
# Runs of a session

An action is one uninterrupted step of a session: a call begins, makes use of the line or learns
what became of its batch, the stream opens, brings an event, fails or halts, a caller forgets a
poke or drops what it holds, the session is closed. An action that cannot take place leaves the
session as it is, so any list of actions is a run, and the sessions that runs lead to from the
initial one are the reachable ones. The trail of a run pairs each action with the session that it
met.
-/

namespace ShipBridge

open Wire

namespace Session

inductive Action where
  | call (owner : Nat) (r : Request)
  | callAcknowledge (owner : Nat)
  | proceed
  | settle (a : Answer)
  | connect
  | forget (id : Nat)
  | close
  | awaken
  | opened
  | fail
  | receive (e : EventStream.Event)
  | halt
  | dropPoke (ticket : Nat)
  | dropSubscription (ticket : Nat)

/-- The session after an action; `n` is the greatest number of attempts to open the stream. -/
def act (n : Nat) (s : Session) : Action → Session
  | .call owner r => ((s.call? owner r).map Prod.snd).getD s
  | .callAcknowledge owner => s.callAcknowledge owner
  | .proceed => (s.proceed?.map Prod.snd).getD s
  | .settle a => (s.settle? a).getD s
  | .connect => s.connect
  | .forget id => (s.forget id).2
  | .close => s.close.2
  | .awaken => s.awaken.2
  | .opened => s.opened.2
  | .fail => (s.fail? n).2
  | .receive e => s.receive e
  | .halt => s.halt
  | .dropPoke ticket =>
    { s with state := { s.state with pokes := (s.state.pokes.abandon ticket).2 } }
  | .dropSubscription ticket =>
    { s with state := { s.state with subscriptions := (s.state.subscriptions.abandon ticket).2 } }

def run (n : Nat) (s : Session) (as : List Action) : Session := as.foldl (act n) s

def trail (n : Nat) (s : Session) : List Action → List (Session × Action)
  | [] => []
  | a :: as => (s, a) :: trail n (s.act n a) as

/-- What a session asks of the transport to the ship. -/
inductive Demand where
  | put (batch : List Command)
  | opening (resume : Option Nat)
  | discard
deriving DecidableEq

def demand? (s : Session) : Action → Option Demand
  | .proceed => match s.proceed? with
    | some (.send batch, _) => some (.put batch)
    | _ => none
  | .awaken => s.awaken.1.map .opening
  | .close => if s.close.1 then some .discard else none
  | _ => none

def demands (n : Nat) (s : Session) (as : List Action) : List Demand :=
  (trail n s as).filterMap fun m => m.1.demand? m.2

variable {n : Nat} {s : Session}

theorem run_append (as bs : List Action) : run n s (as ++ bs) = run n (run n s as) bs :=
  List.foldl_append

theorem run_concat (as : List Action) (a : Action) :
    run n s (as ++ [a]) = (run n s as).act n a := by rw [run_append]; rfl

theorem trail_append (as bs : List Action) :
    trail n s (as ++ bs) = trail n s as ++ trail n (run n s as) bs := by
  induction as generalizing s with
  | nil => rfl
  | cons a as ih => exact congrArg ((s, a) :: ·) ih

theorem demands_cons (a : Action) (as : List Action) :
    demands n s (a :: as) = (s.demand? a).toList ++ demands n (s.act n a) as := by
  rw [demands, trail, List.filterMap_cons]
  cases s.demand? a <;> rfl

theorem run_induction {P : Session → Prop} (h : P s) (hact : ∀ s a, P s → P (s.act n a))
    (as : List Action) : P (run n s as) := by
  induction as generalizing s with
  | nil => exact h
  | cons a as ih => exact ih (hact s a h)

/-! ## What each action does -/

def Freight.command? : Freight → Option Command
  | .command c => some c
  | .acknowledgment => none

def State.refund (s : State) : Freight → State
  | .command c => s.withdraw c
  | .acknowledgment => s

theorem State.refund_eq (s : State) (f : Freight) : s.refund f =
    { s with pokes := (s.refund f).pokes, subscriptions := (s.refund f).subscriptions } := by
  cases f with
  | command c => cases c <;> rfl
  | acknowledgment => rfl

theorem State.dispatch_eq (s : State) (f : Frame) : s.dispatch f =
    { s with pokes := (s.dispatch f).pokes, subscriptions := (s.dispatch f).subscriptions } := by
  cases f with
  | subscribe id ok err => cases err <;> rfl
  | _ => rfl

theorem State.revert_eq (s : State) (d : Advance) :
    s.revert d = { s with acknowledged := (s.revert d).acknowledged } := by
  unfold State.revert
  split_ifs <;> rfl

/-- Is there nothing to send? A call for an acknowledgment then ends without a batch. -/
def State.isIdle (s : State) : Freight → Bool
  | .command _ => false
  | .acknowledgment => !s.receivedAny || s.acknowledged == s.received

/-- What is sent for a freight: an acknowledgment if it is due, then the command if there is
one. -/
def State.cargo (s : State) (f : Freight) : List Command :=
  (s.takeAck.1.map fun a => .ack a.after).toList ++ f.command?.toList

theorem State.takeAck_snd (s : State) : s.takeAck.2 = { s with acknowledged := s.received } := by
  unfold State.takeAck
  split_ifs with h
  · cases s
    simp_all
  · rfl

theorem act_proceed_of_not_granted (h : s.line.granted? = none) : s.act n .proceed = s := by
  cases hl : s.line with
  | granted e w => simp [hl, Line.granted?] at h
  | _ => simp [act, proceed?, hl]

section Granted

variable {e : Errand} {w : List Errand} (hl : s.line = .granted e w)

include hl

theorem act_proceed_of_closed (hc : s.state.isClosed = true) :
    s.act n .proceed = { s with line := .pass w, state := s.state.refund e.freight } := by
  cases hf : e.freight <;> simp [act, proceed?, hl, hc, hf, conclude, State.refund]

theorem act_proceed_of_idle (hc : s.state.isClosed = false)
    (hi : s.state.isIdle e.freight = true) : s.act n .proceed = { s with line := .pass w } := by
  cases hf : e.freight with
  | command c => simp [State.isIdle, hf] at hi
  | acknowledgment =>
    rw [hf, State.isIdle] at hi
    simp [act, proceed?, hl, hc, hf, hi, conclude]

theorem proceed?_of_busy (hc : s.state.isClosed = false) (hi : s.state.isIdle e.freight = false) :
    s.proceed? = some (.send (s.state.cargo e.freight),
      { s with
        state := { s.state with acknowledged := s.state.received }
        line := .sending e (s.state.cargo e.freight) s.state.takeAck.1 w }) := by
  cases hf : e.freight with
  | command c =>
    simp [proceed?, hl, hc, hf, State.batch, State.cargo, Freight.command?, State.takeAck_snd]
  | acknowledgment =>
    have hd : s.state.receivedAny = true ∧ s.state.acknowledged ≠ s.state.received := by
      simpa [hf, State.isIdle] using hi
    simp [proceed?, hl, hc, hf, State.advance, State.cargo, Freight.command?, State.takeAck,
      hd.1, hd.2, hd.2.symm]

theorem act_proceed_of_busy (hc : s.state.isClosed = false)
    (hi : s.state.isIdle e.freight = false) : s.act n .proceed = { s with
      state := { s.state with acknowledged := s.state.received }
      line := .sending e (s.state.cargo e.freight) s.state.takeAck.1 w } := by
  simp [act, proceed?_of_busy hl hc hi]

end Granted

theorem send_of_put {batch : List Command} (h : s.demand? .proceed = some (.put batch)) :
    ∃ t, s.proceed? = some (.send batch, t) := by
  simp only [demand?] at h
  split at h
  · next sent t hs =>
    obtain rfl := Demand.put.inj (Option.some.inj h)
    exact ⟨t, hs⟩
  · cases h

/-- A batch is sent only for a call that has been granted the line, in a session that is open. -/
theorem granted_of_send {batch : List Command} {t : Session}
    (h : s.proceed? = some (.send batch, t)) : ∃ e w, s.line = .granted e w ∧
      s.state.isClosed = false ∧ s.state.isIdle e.freight = false := by
  cases hl : s.line with
  | granted e w =>
    refine ⟨e, w, rfl, ?_⟩
    cases hc : s.state.isClosed with
    | true => simp [proceed?, hl, hc] at h
    | false =>
      refine ⟨rfl, ?_⟩
      cases hf : e.freight with
      | command c => rfl
      | acknowledgment =>
        cases hi : s.state.isIdle .acknowledgment with
        | false => rfl
        | true =>
          rw [State.isIdle] at hi
          simp [proceed?, hl, hc, hf, hi] at h
  | _ => simp [proceed?, hl] at h

theorem act_settle_of_not_sending (a : Answer) (h : s.line.sending? = none) :
    s.act n (.settle a) = s := by
  cases hl : s.line with
  | sending e b d w => simp [hl, Line.sending?] at h
  | _ => simp [act, settle?, hl]

section Sending

variable {e : Errand} {b : List Command} {d : Option Advance} {w : List Errand}
  (hl : s.line = .sending e b d w)

include hl

theorem act_settle_ok :
    s.act n (.settle (.ok ())) = { s with line := .pass w }.conclude e.freight (.ok ()) := by
  simp [act, settle?, hl]

theorem act_settle_error (f : Fault) : s.act n (.settle (.error f)) = { s with
    line := .pass w, state := (d.elim s.state s.state.revert).refund e.freight } := by
  cases hf : e.freight <;> cases d <;>
    simp [act, settle?, hl, hf, conclude, State.refund]

end Sending

/-- The command whose call ends with an action, and how it ends. -/
def concluded? (s : Session) : Action → Option (Command × Answer)
  | .proceed => match s.line with
    | .granted e _ =>
      if s.state.isClosed then e.freight.command?.map (·, .error .closed) else none
    | _ => none
  | .settle a => match s.line with
    | .sending e .. => e.freight.command?.map (·, a)
    | _ => none
  | _ => none

/-! ## Events that are taken in -/

/-- Is an event no replay? One without a number never is. -/
def State.admits (s : State) (e : EventStream.Event) : Bool :=
  e.number?.all fun k => !(s.receivedAny && k ≤ s.received)

/-- The state after an event that is no replay has been counted. -/
def State.noted (s : State) (e : EventStream.Event) : State :=
  e.number?.elim s fun k => { s with receivedAny := true, received := k }

theorem State.handle_eq (s : State) (e : EventStream.Event) :
    s.handle e = if s.admits e then (s.noted e).accept e.data else s := by
  cases hk : e.number? with
  | none => simp [State.handle, State.admits, State.noted, hk]
  | some k =>
    by_cases h : s.receivedAny = true ∧ k ≤ s.received
    · simp [State.handle, State.admits, State.note?, hk, h]
    · have ha : s.admits e = true := by
        simp only [State.admits, hk, Option.all_some, Bool.not_eq_true', Bool.and_eq_false_iff]
        simpa using Decidable.not_and_iff_or_not.mp h
      simp [State.handle, State.note?, State.noted, hk, h, ha]

def takes (s : Session) (e : EventStream.Event) : Bool := s.stream == .reading && s.state.admits e

/-- The frame that an action dispatches: an event that is taken in brings one unless its data is
no frame. -/
def dispatched? (s : Session) : Action → Option Frame
  | .receive e => if s.takes e then (Frame.decode e.data.toList).toOption else none
  | _ => none

theorem State.accept_eq (s : State) (data : String) :
    s.accept data = ((Frame.decode data.toList).toOption.map s.dispatch).getD s := by
  unfold State.accept
  cases Frame.decode data.toList <;> rfl

theorem act_receive_of_not_takes {e : EventStream.Event} (h : s.takes e = false) :
    s.act n (.receive e) = s := by
  cases hs : s.stream with
  | reading =>
    have ha : s.state.admits e = false := by simpa [takes, hs] using h
    simp only [act, receive, hs, State.handle_eq, ha, Bool.false_eq_true, if_false]
    rw [← hs]
  | _ => simp [act, receive, hs]

theorem act_receive_of_takes {e : EventStream.Event} (h : s.takes e = true) :
    s.act n (.receive e) = { s with state :=
      ((s.dispatched? (.receive e)).map (s.state.noted e).dispatch).getD (s.state.noted e) } := by
  have hs : s.stream = .reading ∧ s.state.admits e = true := by simpa [takes] using h
  simp [act, receive, hs.1, State.handle_eq, hs.2, dispatched?, h, State.accept_eq]

/-- An event moves the received count if it is taken in; beyond that it touches the tables
only. -/
theorem act_receive_eq (e : EventStream.Event) : s.act n (.receive e) = { s with state :=
    { (if s.takes e then s.state.noted e else s.state) with
      pokes := (s.act n (.receive e)).state.pokes
      subscriptions := (s.act n (.receive e)).state.subscriptions } } := by
  cases h : s.takes e with
  | false => rw [act_receive_of_not_takes h]; rfl
  | true =>
    rw [act_receive_of_takes h]
    cases s.dispatched? (.receive e) with
    | none => rfl
    | some f =>
      simp only [Option.map_some, Option.getD_some, if_true]
      rw [State.dispatch_eq]

theorem State.noted_eq (s : State) (e : EventStream.Event) : s.noted e =
    { s with receivedAny := (s.noted e).receivedAny, received := (s.noted e).received } := by
  unfold State.noted
  cases e.number? <;> rfl

/-! ## The stream's own steps -/

theorem open?_state (backoff : Retry.Backoff) (again : Bool) :
    (s.open? backoff again).2.state = s.state := by
  unfold open?
  split_ifs <;> rfl

theorem open?_line (backoff : Retry.Backoff) (again : Bool) :
    (s.open? backoff again).2.line = s.line := by
  unfold open?
  split_ifs <;> rfl

theorem awaken_state : s.awaken.2.state = s.state := by
  unfold awaken
  split
  · exact open?_state _ _
  · exact open?_state _ _
  · rfl

theorem awaken_line : s.awaken.2.line = s.line := by
  unfold awaken
  split
  · exact open?_line _ _
  · exact open?_line _ _
  · rfl

theorem opened_state : s.opened.2.state = s.state := by
  unfold opened
  split <;> rfl

theorem opened_line : s.opened.2.line = s.line := by
  unfold opened
  split <;> rfl

theorem halt_state : s.halt.state = s.state := by
  unfold halt
  split_ifs <;> rfl

theorem halt_line : s.halt.line = s.line := by
  unfold halt
  split_ifs <;> rfl

/-! ## The end of a session -/

/-- Does the policy allow no further attempt if the stream fails now? -/
def isExhausted (n : Nat) (s : Session) : Bool :=
  match s.stream with
  | .opening _ backoff _ => n ≤ backoff.failures
  | .reading => n = 0
  | _ => false

/-- The reason that is given when an action closes an open session. -/
def ending? (n : Nat) (s : Session) (a : Action) : Option String :=
  if s.state.isClosed = false ∧ (s.act n a).state.isClosed = true then
    some (match a with
      | .close => "channel closed"
      | _ => "event stream lost")
  else none

theorem tearDown_state (r : String) :
    (s.tearDown r).2.state = (s.state.tearDown? r).getD s.state := by
  unfold tearDown
  cases s.state.tearDown? r <;> rfl

theorem tearDown_line (r : String) : (s.tearDown r).2.line = s.line := by
  unfold tearDown
  cases s.state.tearDown? r <;> rfl

theorem tearDown_stream (r : String) : (s.tearDown r).2.stream = s.stream := by
  unfold tearDown
  cases s.state.tearDown? r <;> rfl

theorem retry?_state (backoff : Retry.Backoff) : (s.retry? n backoff).2.state =
    if n ≤ backoff.failures then (s.state.tearDown? "event stream lost").getD s.state
    else s.state := by
  unfold retry? Retry.Backoff.next
  split_ifs with h
  · exact tearDown_state _
  · rfl

theorem retry?_line (backoff : Retry.Backoff) : (s.retry? n backoff).2.line = s.line := by
  unfold retry? Retry.Backoff.next
  split_ifs with h
  · exact tearDown_line _
  · rfl

theorem act_fail_state : (s.act n .fail).state =
    if s.isExhausted n then (s.state.tearDown? "event stream lost").getD s.state else s.state := by
  cases hs : s.stream with
  | opening _ backoff _ => simp [act, fail?, hs, retry?_state, isExhausted]
  | reading => simp [act, fail?, hs, retry?_state, isExhausted]
  | _ => simp [act, fail?, hs, isExhausted]

theorem connect_state : s.connect.state = if s.state.connection = .disconnected then
    { s.state with connection := .connected } else s.state := by
  unfold connect
  cases h : s.state.connection <;> simp

theorem connect_line : s.connect.line = s.line := by
  unfold connect
  cases s.state.connection <;> rfl

/-! ## What actions leave alone -/

theorem connect_frame : s.connect = { s with
    stream := s.connect.stream
    state := { s.state with connection := s.connect.state.connection } } := by
  unfold connect
  cases s.state.connection <;> rfl

theorem State.tearDown?_frame (s : State) (r : String) : (s.tearDown? r).getD s = { s with
    connection := ((s.tearDown? r).getD s).connection
    pokes := ((s.tearDown? r).getD s).pokes
    subscriptions := ((s.tearDown? r).getD s).subscriptions } := by
  unfold State.tearDown?
  split_ifs <;> rfl

theorem act_call_frame (owner : Nat) (r : Request) : s.act n (.call owner r) = { s with
    line := (s.act n (.call owner r)).line
    state := { s.state with
      nextId := (s.act n (.call owner r)).state.nextId
      pokes := (s.act n (.call owner r)).state.pokes
      subscriptions := (s.act n (.call owner r)).state.subscriptions } } := by
  cases r <;> simp only [act, call?, State.register?] <;> split_ifs <;> rfl

theorem act_proceed_frame : s.act n .proceed = { s with
    line := (s.act n .proceed).line
    state := { s.state with
      acknowledged := (s.act n .proceed).state.acknowledged
      pokes := (s.act n .proceed).state.pokes
      subscriptions := (s.act n .proceed).state.subscriptions } } := by
  cases hl : s.line with
  | granted e w =>
    cases hc : s.state.isClosed with
    | true => rw [act_proceed_of_closed hl hc, State.refund_eq]
    | false =>
      cases hi : s.state.isIdle e.freight with
      | true => rw [act_proceed_of_idle hl hc hi]
      | false => rw [act_proceed_of_busy hl hc hi]
  | _ => rw [act_proceed_of_not_granted (by rw [hl]; rfl)]

theorem act_settle_frame (a : Answer) : s.act n (.settle a) = { s with
    line := (s.act n (.settle a)).line
    stream := (s.act n (.settle a)).stream
    state := { s.state with
      connection := (s.act n (.settle a)).state.connection
      acknowledged := (s.act n (.settle a)).state.acknowledged
      pokes := (s.act n (.settle a)).state.pokes
      subscriptions := (s.act n (.settle a)).state.subscriptions } } := by
  cases hl : s.line with
  | sending e b d w =>
    cases a with
    | ok =>
      rw [act_settle_ok hl]
      cases e.freight with
      | command c => rw [conclude, connect_frame]
      | acknowledgment => rfl
    | error f =>
      rw [act_settle_error hl, State.refund_eq]
      cases d with
      | none => rfl
      | some d => rw [Option.elim, State.revert_eq]
  | _ => rw [act_settle_of_not_sending _ (by rw [hl]; rfl)]

theorem act_receive_frame (e : EventStream.Event) : s.act n (.receive e) = { s with
    state := { s.state with
      receivedAny := (s.act n (.receive e)).state.receivedAny
      received := (s.act n (.receive e)).state.received
      pokes := (s.act n (.receive e)).state.pokes
      subscriptions := (s.act n (.receive e)).state.subscriptions } } := by
  rw [act_receive_eq]
  split_ifs
  · rw [State.noted_eq]
  · rfl

theorem act_close_state : (s.act n .close).state =
    (s.state.tearDown? "channel closed").getD s.state := tearDown_state _

/-- Each count has actions of its own: a call moves the next id, an event the received count, and
the use of the line or the end of a batch the acknowledged one. -/
structure Action.Keeps (a : Action) (s t : State) : Prop where
  nextId : (∀ owner r, a ≠ .call owner r) → t.nextId = s.nextId
  received : (∀ e, a ≠ .receive e) → t.received = s.received
  receivedAny : (∀ e, a ≠ .receive e) → t.receivedAny = s.receivedAny
  acknowledged : a ≠ .proceed → (∀ x, a ≠ .settle x) → t.acknowledged = s.acknowledged

theorem Action.keeps_refl (a : Action) (s : State) : a.Keeps s s :=
  ⟨fun _ => rfl, fun _ => rfl, fun _ => rfl, fun _ _ => rfl⟩

theorem act_keeps (a : Action) : a.Keeps s.state (s.act n a).state := by
  cases a with
  | call owner r =>
    rw [act_call_frame]
    exact ⟨fun h => absurd rfl (h owner r), fun _ => rfl, fun _ => rfl, fun _ _ => rfl⟩
  | proceed =>
    rw [act_proceed_frame]
    exact ⟨fun _ => rfl, fun _ => rfl, fun _ => rfl, fun h => absurd rfl h⟩
  | settle x =>
    rw [act_settle_frame]
    exact ⟨fun _ => rfl, fun _ => rfl, fun _ => rfl, fun _ h => absurd rfl (h x)⟩
  | receive e =>
    rw [act_receive_frame]
    exact ⟨fun _ => rfl, fun h => absurd rfl (h e), fun h => absurd rfl (h e), fun _ _ => rfl⟩
  | connect =>
    rw [act, connect_frame]
    exact ⟨fun _ => rfl, fun _ => rfl, fun _ => rfl, fun _ _ => rfl⟩
  | close =>
    rw [act_close_state, State.tearDown?_frame]
    exact ⟨fun _ => rfl, fun _ => rfl, fun _ => rfl, fun _ _ => rfl⟩
  | fail =>
    rw [act_fail_state]
    split_ifs
    · rw [State.tearDown?_frame]
      exact ⟨fun _ => rfl, fun _ => rfl, fun _ => rfl, fun _ _ => rfl⟩
    · exact Action.keeps_refl _ _
  | awaken =>
    rw [act, awaken_state]
    exact Action.keeps_refl _ _
  | opened =>
    rw [act, opened_state]
    exact Action.keeps_refl _ _
  | halt =>
    rw [act, halt_state]
    exact Action.keeps_refl _ _
  | _ => exact ⟨fun _ => rfl, fun _ => rfl, fun _ => rfl, fun _ _ => rfl⟩

/-- The connection and the stream are as before, or the one has just been made and the other is
born with it. -/
def Connects (s t : Session) : Prop :=
  (t.state.connection = s.state.connection ∧ t.stream = s.stream) ∨
    (s.state.connection = .disconnected ∧ t.state.connection = .connected ∧ t.stream = .born)

theorem connect_connects : s.Connects s.connect := by
  unfold connect
  split
  · next h => exact .inr ⟨h, rfl, rfl⟩
  · exact .inl ⟨rfl, rfl⟩
  · exact .inl ⟨rfl, rfl⟩

theorem act_settle_connects (a : Answer) : s.Connects (s.act n (.settle a)) := by
  cases hl : s.line with
  | sending e b d w =>
    cases a with
    | ok =>
      rw [act_settle_ok hl]
      cases e.freight with
      | command c => exact connect_connects (s := { s with line := .pass w })
      | acknowledgment => exact .inl ⟨rfl, rfl⟩
    | error f =>
      rw [act_settle_error hl, State.refund_eq]
      cases d with
      | none => exact .inl ⟨rfl, rfl⟩
      | some d => exact .inl ⟨by rw [Option.elim, State.revert_eq], rfl⟩
  | _ =>
    rw [act_settle_of_not_sending _ (by rw [hl]; rfl)]
    exact .inl ⟨rfl, rfl⟩

/-- Only closing the session and losing the stream for good close it; other actions leave the
connection alone, or make one where there was none. -/
theorem act_connection {a : Action} (hc : a ≠ .close) (hf : a ≠ .fail) :
    (s.act n a).state.connection = s.state.connection ∨
      (s.state.connection = .disconnected ∧ (s.act n a).state.connection = .connected) := by
  have key {t : Session} (h : s.Connects t) : t.state.connection = s.state.connection ∨
      (s.state.connection = .disconnected ∧ t.state.connection = .connected) :=
    h.imp And.left fun h => ⟨h.1, h.2.1⟩
  cases a with
  | close => exact absurd rfl hc
  | fail => exact absurd rfl hf
  | call owner r => exact .inl (by rw [act_call_frame])
  | proceed => exact .inl (by rw [act_proceed_frame])
  | receive e => exact .inl (by rw [act_receive_frame])
  | settle a => exact key (act_settle_connects a)
  | connect => exact key connect_connects
  | awaken => exact .inl (congrArg State.connection awaken_state)
  | opened => exact .inl (congrArg State.connection opened_state)
  | halt => exact .inl (congrArg State.connection halt_state)
  | _ => exact .inl rfl

theorem act_isClosed_of_ne {a : Action} (hc : a ≠ .close) (hf : a ≠ .fail) :
    (s.act n a).state.isClosed = s.state.isClosed := by
  rcases act_connection (n := n) (s := s) hc hf with h | ⟨h, h'⟩
  · simp only [State.isClosed, h]
  · simp only [State.isClosed, h, h']
    rfl

theorem State.isClosed_of_tearDown? {s t : State} {r : String} (h : s.tearDown? r = some t) :
    s.isClosed = false ∧ t.isClosed = true := by
  unfold State.tearDown? at h
  split_ifs at h with hc
  obtain rfl := Option.some.inj h
  exact ⟨by simpa using hc, rfl⟩

theorem tearDown?_of_ending {a : Action} {r : String} (h : s.ending? n a = some r) :
    s.state.tearDown? r = some (s.act n a).state := by
  unfold ending? at h
  split_ifs at h with hc
  have ha : a = .close ∨ a = .fail := by
    by_contra hn
    rw [not_or] at hn
    rw [act_isClosed_of_ne hn.1 hn.2, hc.1] at hc
    exact Bool.noConfusion hc.2
  rcases ha with rfl | rfl
  · obtain rfl := Option.some.inj h
    have hs := act_close_state (n := n) (s := s)
    cases ht : s.state.tearDown? "channel closed" with
    | none => simp [State.tearDown?, hc.1] at ht
    | some t => rw [hs, ht, Option.getD_some]
  · obtain rfl := Option.some.inj h
    have hs := act_fail_state (n := n) (s := s)
    split_ifs at hs
    · cases ht : s.state.tearDown? "event stream lost" with
      | none => simp [State.tearDown?, hc.1] at ht
      | some t => rw [hs, ht, Option.getD_some]
    · rw [hs, hc.1] at hc
      exact Bool.noConfusion hc.2

theorem act_state_of_not_ending {a : Action} (ha : a = .close ∨ a = .fail)
    (h : s.ending? n a = none) : (s.act n a).state = s.state := by
  have key (r : String) (hr : (s.act n a).state = (s.state.tearDown? r).getD s.state) :
      (s.act n a).state = s.state := by
    cases ht : s.state.tearDown? r with
    | none => rw [hr, ht, Option.getD_none]
    | some t =>
      rw [ht, Option.getD_some] at hr
      have hc := State.isClosed_of_tearDown? ht
      rw [← hr] at hc
      simp [ending?, hc] at h
  rcases ha with rfl | rfl
  · exact key _ act_close_state
  · have hs := act_fail_state (n := n) (s := s)
    split_ifs at hs
    · exact key _ hs
    · exact hs

end Session

end ShipBridge
