import ShipBridge.Proofs.Session.Run
import ShipBridge.Relay.Machine

/-!
# The session of the bridge

The bridge works with its session by actions only, and a step of a job takes at most one of them.
What it asks of the transport meanwhile is what that action demands. So the sessions that the
bridge meets are those of runs, however its jobs take turns, and what holds after every run holds
at every moment of its work.
-/

namespace ShipBridge

namespace Session

/-- A session is left as it is, or led on by one action. -/
def StepsTo (n : Nat) (s t : Session) : Prop := t = s ∨ ∃ a, t = s.act n a

/-- A session with what it has demanded of the transport so far, latest first. -/
structure Front where
  session : Session
  demanded : List Demand

def Front.act (n : Nat) (f : Front) (a : Action) : Front where
  session := f.session.act n a
  demanded := (f.session.demand? a).toList ++ f.demanded

variable {n : Nat} {s t u : Session}

theorem Front.foldl_act (f : Front) (as : List Action) : as.foldl (Front.act n) f =
    ⟨run n f.session as, (demands n f.session as).reverse ++ f.demanded⟩ := by
  induction as generalizing f with
  | nil => rfl
  | cons a as ih =>
    rw [List.foldl_cons, ih, demands_cons]
    cases h : f.session.demand? a <;> simp [Front.act, run, h]

end Session

namespace Relay

def Output.demand? : Output → Option Session.Demand
  | .put batch => some (.put batch)
  | .opening resume => some (.opening resume)
  | .discard => some .discard
  | .message _ | .finished .. => none

namespace Machine

open Session (Front)

def demanded (m : Machine) : List Session.Demand := m.log.filterMap Output.demand?

/-- What faces the ship: the session, and what has been asked of the transport. -/
def front (m : Machine) : Front where
  session := m.session
  demanded := m.demanded

/-- The session is left as it is and nothing is asked of the transport, or one action is taken and
what it demands is asked for. -/
def Takes (n : Nat) (m m' : Machine) : Prop := m'.front = m.front ∨ ∃ a, m'.front = m.front.act n a

variable (e : Surroundings) (m : Machine)

/-! ## What leaves the front alone -/

@[simp] theorem emit_front (o : Output) : (m.emit o).front =
    { m.front with demanded := o.demand?.toList ++ m.demanded } := by
  cases o <;> rfl

@[simp] theorem spawn_front (t : Task) : (m.spawn t).front = m.front := rfl

@[simp] theorem become_front (j : Nat) (t : Task) : (m.become j t).front = m.front := rfl

@[simp] theorem dismiss_front (j : Nat) : (m.dismiss j).front = m.front := rfl

@[simp] theorem finish_front (j caller : Nat) (r : Result) (held : Option Holding) :
    (m.finish j caller r held).front = m.front := rfl

@[simp] theorem timer_front (d : Duration) : (m.timer d).2.front = m.front := rfl

@[simp] theorem withSession_front (s : Session) :
    (m.withSession s).front = { m.front with session := s } := by
  simp only [withSession]
  split_ifs <;> rfl

@[simp] theorem send_front (message : Editor.Message) :
    (m.send message).2.front = m.front := by
  unfold send
  split <;> rfl

@[simp] theorem route_front (update : Json) : (m.route update).front = m.front := by
  unfold route
  split
  · rfl
  · exact m.send_front _
  · rfl

@[simp] theorem tell_front (j : Nat) (origin : Origin) (o : Outcome) :
    (m.tell j origin o).front = m.front := by
  cases origin <;> simp [tell]

@[simp] theorem afterNotification_front (method : String) (envelope : Json) :
    (m.afterNotification e method envelope).front = m.front := by
  unfold afterNotification
  split_ifs <;> rfl

@[simp] theorem resume_front (j : Nat) (source : Source) (method : String) :
    (m.resume j source method).front = m.front := by
  cases source with
  | caller n => rfl
  | editor conversation =>
    simp only [resume]
    split_ifs <;> rfl

@[simp] theorem startAwait_front (j : Nat) (origin : Origin) (f : Forwarded) :
    (m.startAwait e j origin f).front = m.front := by
  cases origin <;> rfl

@[simp] theorem refuse_front (j : Nat) (origin : Origin) (f : Fault) :
    (m.refuse j origin f).front = m.front := by
  cases origin <;> simp [refuse]

@[simp] theorem abandon_front (j : Nat) : (m.abandon j).front = m.front := rfl

@[simp] theorem erase_front (key : String) :
    ({ m with pending := m.pending.erase key } : Machine).front = m.front := rfl

@[simp] theorem sent_front (j : Nat) (p : Purpose) (a : Session.Answer) :
    (m.sent e j p a).front = m.front := by
  fun_cases sent e m j p a <;> simp [startWatch, spawnWatch]

@[simp] theorem pauseStream_front (j : Nat) (attempt : Option Nat) :
    (m.pauseStream e j attempt).front = m.front := by
  unfold pauseStream
  split
  · rfl
  · split <;> rfl

theorem stepFollow_front (j ticket seen : Nat) (backoff : Retry.Backoff) :
    (m.stepFollow j ticket seen backoff).front = m.front := by
  unfold stepFollow
  simp only
  split <;> simp

theorem stepDetached_front (j : Nat) (backoff : Retry.Backoff) :
    (m.stepDetached e j backoff).front = m.front := by
  unfold stepDetached
  split_ifs
  · rfl
  · split
    · rfl
    · split <;> rfl

/-! ## What leads the session on -/

section Steps

variable {e m} {n : Nat}

theorem Takes.refl : m.Takes n m := .inl rfl

/-- The session is put in place of what an action makes of it, and nothing is asked for. -/
theorem takes_of_act (a : Session.Action) {m' : Machine} (hd : m.session.demand? a = none)
    (h : m'.front = { m.front with session := m.session.act n a }) : m.Takes n m' := by
  refine .inr ⟨a, ?_⟩
  have hnone : m.front.session.demand? a = none := hd
  rw [h, Front.act, hnone]
  rfl

theorem call?_takes {j : Nat} {r : Session.Request} {receipt : Session.Receipt} {t m' : Machine}
    (h : m.call? j r = some (receipt, t)) (hm' : m'.front = t.front) : m.Takes n m' := by
  obtain ⟨⟨receipt', s⟩, hs, heq⟩ := Option.map_eq_some_iff.mp h
  obtain ⟨-, rfl⟩ := Prod.mk.inj heq
  refine takes_of_act (.call j r) rfl ?_
  rw [hm', withSession_front]
  simp [Session.act, hs]

variable (e m) (j : Nat)

theorem forward?_takes (method : String) (params : Option Json) :
    m.Takes n (m.forward? e j method params).2 := by
  simp only [forward?]
  split
  · next t h =>
    have hcall := call?_takes (n := n) h (Eq.refl t.front)
    exact hcall
  · exact .refl

theorem notify_takes (source : Source) (method : String) (params : Option Json) :
    m.Takes n (m.notify e j source method params) := by
  simp only [notify]
  split
  · next h => exact call?_takes h rfl
  · exact .inl (by simp)

theorem request_takes (origin : Origin) (method : String) (params : Option Json) :
    m.Takes n (m.request e j origin method params) := by
  have h := m.forward?_takes e (n := n) j method params
  unfold request
  split_ifs
  · cases origin <;> exact .inl (by simp)
  · split <;> next hf => simpa [Takes, hf] using h

theorem stepSending_takes (p : Purpose) : m.Takes n (m.stepSending e j p) := by
  unfold stepSending
  split
  · next batch s h =>
    refine .inr ⟨.proceed, ?_⟩
    rw [emit_front]
    simp [Front.act, Session.act, Session.demand?, front, demanded, h, Output.demand?]
  · next a s h =>
    exact takes_of_act .proceed (by simp [Session.demand?, h]) (by simp [Session.act, h])
  · split
    · exact .refl
    · next a _ =>
      split
      · exact .refl
      · next s h =>
        refine takes_of_act (.settle a) rfl ?_
        rw [sent_front, withSession_front]
        simp [front, demanded, Session.act, h]

theorem close_takes (caller : Nat) : m.Takes n (m.stepStart e j caller .close) := by
  simp only [stepStart]
  split_ifs with htold
  · refine .inr ⟨.close, ?_⟩
    rw [become_front, emit_front]
    simp [Front.act, Session.act, Session.demand?, front, demanded, htold, Output.demand?]
  · exact takes_of_act .close (by simp [Session.demand?, htold]) rfl

theorem stepStart_takes (caller : Nat) (c : Call) :
    m.Takes n (m.stepStart e j caller c) := by
  cases c with
  | close => exact m.close_takes e j caller
  | notify method params => exact m.notify_takes e j _ method params
  | request method params => exact m.request_takes e j _ method params
  | forward method params =>
    have h := m.forward?_takes e (n := n) j method params
    simp only [stepStart]
    split <;> next hf => simpa [Takes, hf] using h
  | await f => exact .inl (by simp [stepStart])
  | outcome ticket => exact .refl
  | converse => exact .refl
  | poke | subscribe | unsubscribe | serve =>
    simp only [stepStart]
    split
    · next h => exact call?_takes h rfl
    · exact .refl

theorem stepPause_takes (backoff : Retry.Backoff) : m.Takes n (m.stepPause e j backoff) := by
  unfold stepPause
  split
  · next h => exact call?_takes h rfl
  · exact .refl

theorem failStream_front : (m.failStream e j).front =
    { m.front with session := m.session.act e.reconnect.maxAttempts .fail } := by
  rw [failStream, pauseStream_front]
  rfl

theorem awakenStream_front : (m.awakenStream j).front = m.front.act n .awaken := by
  unfold awakenStream
  split
  · next h =>
    rw [become_front, emit_front]
    simp [Front.act, Session.act, Session.demand?, front, demanded, h, Output.demand?]
  · next h =>
    rw [dismiss_front]
    simp [Front.act, Session.act, Session.demand?, front, demanded, h]

theorem stepStream_takes : m.Takes e.reconnect.maxAttempts (m.stepStream e j) := by
  have hfail : m.Takes e.reconnect.maxAttempts (m.failStream e j) :=
    takes_of_act .fail rfl (m.failStream_front e j)
  unfold stepStream
  split
  · exact takes_of_act .halt rfl rfl
  · split
    · exact .inr ⟨.awaken, m.awakenStream_front j⟩
    · exact .inr ⟨.awaken, m.awakenStream_front j⟩
    · split
      · exact .refl
      · exact hfail
      · refine takes_of_act .opened rfl ?_
        simp only
        split_ifs <;> rfl
    · split
      · next event items _ => exact takes_of_act (.receive event) rfl rfl
      · exact hfail
      · split_ifs
        · exact hfail
        · exact .refl
    · exact .refl
    · exact .refl

/-- A job that waits for the answer to a request concludes its wait or goes on with it. -/
theorem stepTask_await (origin : Origin) (f : Forwarded) (t : Timer) :
    m.stepTask e j (.await origin f t) = m ∨
      ∃ o, m.stepTask e j (.await origin f t) = m.conclude j origin f o := by
  simp only [stepTask]
  split
  · exact .inr ⟨_, rfl⟩
  · split_ifs
    · exact .inr ⟨_, rfl⟩
    · exact .inl rfl

theorem conclude_takes (origin : Origin) (f : Forwarded) (o : Outcome) :
    m.Takes n (m.conclude j origin f o) := by
  unfold conclude
  cases o with
  | ok v => exact .inl (by simp)
  | error fault =>
    refine takes_of_act (.forget f.poke) rfl ?_
    rw [tell_front]
    rfl

theorem stepTurn_takes (conversation : Nat) (t : Editor.Turn) :
    m.Takes n (m.stepTurn e j conversation t) := by
  cases t with
  | request id method params => exact m.request_takes e j _ method params
  | notification method params => exact m.notify_takes e j _ method params
  | passed => exact .refl
  | unreadable f =>
    have h := m.send_front (.unreadable f)
    simp only [stepTurn]
    split <;> next hs => exact .inl (by simpa [hs] using h)

theorem stepConverse_takes (conversation : Nat) :
    m.Takes n (m.stepConverse e j conversation) := by
  unfold stepConverse
  split
  · next rest _ => exact stepTurn_takes e { m with input := rest } j conversation _
  · exact .refl
  · exact .refl
  · exact .refl

theorem stepTask_takes (t : Task) : m.Takes e.reconnect.maxAttempts (m.stepTask e j t) := by
  cases t with
  | start caller c => exact m.stepStart_takes e j caller c
  | sending p => exact m.stepSending_takes e j p
  | stream => exact m.stepStream_takes e j
  | converse conversation => exact m.stepConverse_takes e j conversation
  | pause backoff => exact m.stepPause_takes e j backoff
  | acknowledge => exact takes_of_act (.callAcknowledge j) rfl rfl
  | hangUp => exact .refl
  | outcome caller ticket =>
    simp only [stepTask]
    split <;> exact .refl
  | closing caller =>
    simp only [stepTask]
    split <;> exact .refl
  | watch id ticket =>
    simp only [stepTask]
    split
    · exact .refl
    · split_ifs
      · exact takes_of_act (.forget id) rfl rfl
      · exact .refl
  | redeliver envelope =>
    simp only [stepTask]
    split
    · next h => exact call?_takes h rfl
    · exact .refl
  | await origin f t =>
    rcases m.stepTask_await e j origin f t with h | ⟨o, h⟩ <;> rw [h]
    · exact .refl
    · exact m.conclude_takes j origin f o
  | follow current backoff =>
    cases current with
    | none => exact .inl (m.stepDetached_front e j backoff)
    | some p => exact .inl (m.stepFollow_front j p.1 p.2 backoff)

/-- A step of a job takes at most one action, and asks the transport for what that demands. -/
theorem step_takes : m.Takes e.reconnect.maxAttempts (m.step e j) := by
  unfold step
  split
  · split_ifs
    · exact m.stepTask_takes e j _
    · exact .refl
  · exact .refl

end Steps

/-! ## The session alone -/

theorem Takes.stepsTo {m' : Machine} {n : Nat} (h : m.Takes n m') :
    m.session.StepsTo n m'.session := by
  rcases h with h | ⟨a, h⟩
  · exact .inl (congrArg Front.session h)
  · exact .inr ⟨a, congrArg Front.session h⟩

theorem withSession_session (s : Session) : (m.withSession s).session = s :=
  congrArg Front.session (m.withSession_front s)

theorem route_session (update : Json) : (m.route update).session = m.session :=
  congrArg Front.session (m.route_front update)

theorem failStream_session (j : Nat) :
    (m.failStream e j).session = m.session.act e.reconnect.maxAttempts .fail :=
  congrArg Front.session (m.failStream_front e j)

theorem awakenStream_session (j n : Nat) :
    (m.awakenStream j).session = m.session.act n .awaken :=
  congrArg Front.session (m.awakenStream_front (n := n) j)

end Machine

end Relay

end ShipBridge
