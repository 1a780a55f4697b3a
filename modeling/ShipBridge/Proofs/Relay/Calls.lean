import ShipBridge.Proofs.Relay.Closing
import ShipBridge.Proofs.Relay.JobSuccessors
import ShipBridge.Proofs.Relay.Turns
import ShipBridge.Proofs.Session.Withdrawal

/-!
# What the jobs ask of the session

Each task asks the session to send one command at most, and which one can be read off the task, off
what the editor has written, and off the correlation id that is given out next. A step calls for
just that. So nothing gets into the queue for the line but what some task asks for, and
acknowledgments.
-/

namespace ShipBridge

namespace Session

def Action.drops : Action → Bool
  | .dropPoke _ | .dropSubscription _ => true
  | _ => false

/-- The session is left as it is, or led on by an action that puts no command in the queue and lets
go of nothing. -/
def Silent (s t : Session) : Prop := t = s ∨ ∃ n a, a.drops = false ∧
  (∀ x, s.joins? a = some x → x.freight = .acknowledgment) ∧ t = s.act n a

variable {s t : Session} {n : Nat}

theorem Silent.errands (h : s.Silent t) {x : Errand} (hx : x ∈ t.line.errands) :
    x ∈ s.line.errands ∨ x.freight = .acknowledgment := by
  rcases h with rfl | ⟨n, a, -, hack, rfl⟩
  · exact .inl hx
  · have hmem : x ∈ s.line.errands ++ (s.joins? a).toList := by
      rw [← errands_act (n := n) a]
      exact List.mem_append_right _ hx
    rcases List.mem_append.mp hmem with hold | hnew
    · exact .inl hold
    · exact .inr (hack x (Option.mem_toList.mp hnew))

theorem silent_of_quiet {a : Action} (ha : a.isQuiet = true) (hd : a.drops = false) :
    s.Silent (s.act n a) := by
  refine .inr ⟨n, a, hd, fun x hx => ?_, rfl⟩
  cases a <;> first | (cases ha; done) | cases hx

end Session

namespace Relay.Machine

open Session (Receipt)

section Definitions

variable (e : Surroundings) (m : Machine)

/-- What a task asks the session to send if it takes a step. -/
def asks? : Task → Option Session.Request
  | .start _ c => match c with
    | .serve => some (subscription e)
    | .notify method params => pokeFor? e (m.nextKey e) (.notification method params)
    | .request method params => pokeFor? e (m.nextKey e) (.request .null method params)
    | .forward method params =>
      some (pokeRequest e requestMark (envelope (some (m.nextKey e)) method params))
    | c => c.request?
  | .converse _ => match Editor.Framing.scan e.limit m.inputEnded m.input with
    | .frame body _ => pokeFor? e (m.nextKey e) (.ofBody body)
    | _ => none
  | .redeliver body _ => some (pokeRequest e notificationMark body)
  | .pause .. => some (subscription e)
  | _ => none

end Definitions

/-- What is asked for is called for, and nothing else is. -/
structure Calls (j : Nat) (r? : Option Session.Request) (m m' : Machine) : Prop where
  asked : ∀ r, r? = some r → ∀ n, m'.session = m.session.act n (.call j r)
  silent : r? = none → m.session.Silent m'.session

variable {e : Surroundings} {m m' u v : Machine} {j : Nat} {t : Task} {r : Session.Request}

theorem Calls.change {r? : Option Session.Request} (h : Calls j r? u v)
    (hu : u.session = m.session) (hv : m'.session = v.session) : Calls j r? m m' := by
  refine ⟨fun r hr n => ?_, fun hr => ?_⟩
  · rw [hv, ← hu]
    exact h.asked r hr n
  · rw [hv, ← hu]
    exact h.silent hr

theorem calls_of_front (h : m'.front = m.front) : Calls j none m m' :=
  ⟨nofun, fun _ => .inl (congrArg Session.Front.session h)⟩

theorem calls_of_act {n : Nat} {a : Session.Action} (hd : a.drops = false)
    (ha : ∀ x, m.session.joins? a = some x → x.freight = .acknowledgment)
    (h : m'.session = m.session.act n a) : Calls j none m m' :=
  ⟨nofun, fun _ => .inr ⟨n, a, hd, ha, h⟩⟩

theorem calls_of_use {n : Nat} {a : Session.Action} (hd : a.drops = false)
    (ha : m.session.joins? a = none) (h : m'.session = m.session.act n a) : Calls j none m m' := by
  refine calls_of_act hd (fun x hx => ?_) h
  rw [ha] at hx
  cases hx

theorem calls_of_quiet {n : Nat} {a : Session.Action} (ha : a.isQuiet = true)
    (hd : a.drops = false) (h : m'.session = m.session.act n a) : Calls j none m m' :=
  ⟨nofun, fun _ => h ▸ Session.silent_of_quiet ha hd⟩

theorem calls_of_call? {receipt : Receipt} (h : m.call? j r = some (receipt, u))
    (hu : m'.session = u.session) : Calls j (some r) m m' := by
  refine ⟨fun r' hr n => ?_, nofun⟩
  obtain rfl := Option.some.inj hr
  obtain ⟨⟨receipt', s⟩, hs, heq⟩ := Option.map_eq_some_iff.mp h
  obtain ⟨-, rfl⟩ := Prod.mk.inj heq
  rw [hu, withSession_session, Session.act, hs]
  rfl

theorem calls_of_refused (h : m.call? j r = none) (hm' : m'.session = m.session) :
    Calls j (some r) m m' := by
  refine ⟨fun r' hr n => ?_, nofun⟩
  obtain rfl := Option.some.inj hr
  rw [hm', Session.act, call?_eq_none h]
  rfl

theorem call?_receipt (m : Machine) (j : Nat) (r : Session.Request) :
    m.call? j r = none ∨ ∃ u, m.call? j r = some (m.session.state.receipt r, u) := by
  cases hc : m.session.state.isClosed with
  | true => exact .inl (call?_of_closed hc j r)
  | false => exact .inr ⟨_, by rw [call?, Session.call?_of_open hc]; rfl⟩

theorem forward?_calls (method : String) (params : Option Json) :
    Calls j (some (pokeRequest e requestMark (envelope (some (m.nextKey e)) method params))) m
      (m.forward? e j method params).2 := by
  let entered := { m with
    pending := (m.pending.enter (e.correlate (m.issued + 1))).2, issued := m.issued + 1 }
  simp only [forward?]
  rcases call?_poke (e := e) entered j requestMark
    (envelope (some (e.correlate (m.issued + 1))) method params) with ⟨id, ticket, u, h⟩ | h
  · rw [h]
    exact (calls_of_call? h rfl).change rfl rfl
  · rw [h]
    exact (calls_of_refused h rfl).change rfl rfl

theorem notify_calls (source : Source) (method : String) (params : Option Json) :
    Calls j (pokeFor? e (m.nextKey e) (.notification method params)) m
      (m.notify e j source method params) := by
  simp only [notify]
  rcases call?_poke (e := e) m j notificationMark (envelope none method params) with
    ⟨id, ticket, u, h⟩ | h
  · rw [h]
    exact calls_of_call? h rfl
  · rw [h]
    have hresumed := resume_front (m.afterNotification e method (envelope none method params)) j
      source method
    have hfront := hresumed.trans (m.afterNotification_front e method _)
    exact calls_of_refused h (congrArg Session.Front.session hfront)

theorem request_calls (origin : Origin) (id : Json) (method : String) (params : Option Json) :
    Calls j (pokeFor? e (m.nextKey e) (.request id method params)) m
      (m.request e j origin method params) := by
  have hforward := m.forward?_calls (e := e) (j := j) method params
  simp only [request, pokeFor?]
  split_ifs with hmethod
  · exact calls_of_front (by cases origin <;> simp)
  · split
    · next hf =>
      rw [hf] at hforward
      exact hforward.change rfl rfl
    · next u hf =>
      rw [hf] at hforward
      exact hforward.change rfl (congrArg Session.Front.session (u.refuse_front j origin _))

theorem stepStart_calls (caller : Nat) (c : Call) :
    Calls j (m.asks? e (.start caller c)) m (m.stepStart e j caller c) := by
  cases c with
  | notify method params => exact notify_calls _ method params
  | request method params => exact request_calls _ .null method params
  | forward method params =>
    have hforward := m.forward?_calls (e := e) (j := j) method params
    simp only [stepStart]
    split
    · next hf =>
      rw [hf] at hforward
      exact hforward.change rfl rfl
    · next hf =>
      rw [hf] at hforward
      exact hforward.change rfl rfl
  | await f => exact calls_of_front (by simp [stepStart])
  | outcome ticket => exact calls_of_front rfl
  | converse => exact calls_of_front rfl
  | close =>
    refine calls_of_quiet (n := 0) (a := .close) rfl rfl ?_
    simp only [stepStart]
    split_ifs <;> rfl
  | poke ship app mark json wait =>
    rcases m.call?_receipt j (.poke ship app mark json) with h | ⟨u, h⟩
    · simp only [stepStart, h]
      exact calls_of_refused h rfl
    · simp only [stepStart, h, Session.State.receipt]
      exact calls_of_call? h rfl
  | subscribe ship app path =>
    rcases m.call?_receipt j (.subscribe ship app path) with h | ⟨u, h⟩
    · simp only [stepStart, h]
      exact calls_of_refused h rfl
    · simp only [stepStart, h, Session.State.receipt]
      exact calls_of_call? h rfl
  | unsubscribe subscription =>
    rcases m.call?_receipt j (.unsubscribe subscription) with h | ⟨u, h⟩
    · simp only [stepStart, h]
      exact calls_of_refused h rfl
    · simp only [stepStart, h]
      exact calls_of_call? h rfl
  | serve =>
    simp only [stepStart]
    rcases m.call?_receipt j (subscription e) with h | ⟨u, h⟩
    · rw [h]
      exact calls_of_refused h rfl
    · rw [h]
      exact calls_of_call? h rfl

theorem stepStream_calls : Calls j none m (m.stepStream e j) := by
  have hfail : Calls j none m (m.failStream e j) :=
    calls_of_quiet (n := e.reconnect.maxAttempts) (a := .fail) rfl rfl (failStream_session e m j)
  have hawaken : Calls j none m (m.awakenStream j) :=
    calls_of_quiet (n := 0) (a := .awaken) rfl rfl (m.awakenStream_session j 0)
  unfold stepStream
  split
  · exact calls_of_quiet (n := 0) (a := .halt) rfl rfl rfl
  · split
    · exact hawaken
    · exact hawaken
    · split
      · exact calls_of_front rfl
      · exact hfail
      · refine calls_of_quiet (n := 0) (a := .opened) rfl rfl ?_
        dsimp only
        split_ifs <;> rfl
    · split
      · next event items _ => exact calls_of_quiet (n := 0) (a := .receive event) rfl rfl rfl
      · exact hfail
      · split_ifs
        · exact hfail
        · exact calls_of_front rfl
    · exact calls_of_front rfl
    · exact calls_of_front rfl

theorem stepSending_calls {p : Purpose} (hready : m.readyTask e j (.sending p) = true) :
    Calls j none m (m.stepSending e j p) := by
  rcases stepSending_cases hready with hput | ⟨a, u, hpass, heq⟩
  · obtain ⟨batch, hput, -⟩ := hput.put
    exact calls_of_use (n := 0) (a := .proceed) rfl rfl (by simp [Session.act, hput])
  · rw [heq]
    have hsession : (u.sent e j p a).session = u.session :=
      congrArg Session.Front.session (sent_front e u j p a)
    rcases hpass.passes with ⟨-, hmove⟩ | ⟨-, hsettle⟩
    · exact calls_of_use (n := 0) (a := .proceed) rfl rfl (by simp [hsession, Session.act, hmove])
    · exact calls_of_use (n := 0) (a := .settle a) rfl rfl
        (by simp [hsession, Session.act, hsettle])

theorem stepConverse_calls (conversation : Nat) :
    Calls j (m.asks? e (.converse conversation)) m (m.stepConverse e j conversation) := by
  simp only [asks?, stepConverse]
  cases hscan : Editor.Framing.scan e.limit m.inputEnded m.input with
  | frame body rest =>
    dsimp only
    cases Editor.Turn.ofBody body with
    | request id method params =>
      exact (request_calls (m := { m with input := rest }) (.editor conversation id) id method
        params).change rfl rfl
    | notification method params =>
      exact (notify_calls (m := { m with input := rest }) (.editor conversation) method
        params).change rfl rfl
    | passed => exact calls_of_front rfl
    | unreadable f =>
      have hsend := { m with input := rest }.send_front (.unreadable f)
      simp only [stepTurn]
      split <;> next hs =>
        rw [hs] at hsend
        exact calls_of_front hsend
  | _ => exact calls_of_front rfl

theorem conclude_calls (origin : Origin) (f : Forwarded) (o : Outcome) :
    Calls j none m (m.conclude j origin f o) := by
  unfold conclude
  cases o with
  | ok v => exact calls_of_front (m.tell_front j origin _)
  | error fault =>
    refine calls_of_quiet (n := 0) (a := .forget f.poke) rfl rfl ?_
    exact congrArg Session.Front.session (tell_front _ j origin _)

/-- A step calls for what its task asks for, and for nothing else. -/
theorem stepTask_calls (hready : m.readyTask e j t = true) :
    Calls j (m.asks? e t) m (m.stepTask e j t) := by
  cases t with
  | start caller c => exact stepStart_calls caller c
  | sending p => exact stepSending_calls hready
  | stream d => exact stepStream_calls
  | converse conversation => exact stepConverse_calls conversation
  | hangUp => exact calls_of_front rfl
  | acknowledge =>
    refine calls_of_act (n := 0) (a := .callAcknowledge j) rfl (fun x hx => ?_) rfl
    rw [← Option.some.inj hx]
  | outcome caller ticket =>
    simp only [stepTask]
    split <;> exact calls_of_front rfl
  | closing caller =>
    simp only [stepTask]
    split <;> exact calls_of_front rfl
  | watch id ticket d =>
    simp only [stepTask]
    split
    · exact calls_of_front rfl
    · split_ifs
      · exact calls_of_quiet (n := 0) (a := .forget id) rfl rfl rfl
      · exact calls_of_front rfl
  | redeliver body d =>
    simp only [stepTask]
    rcases m.call?_receipt j (pokeRequest e notificationMark body) with h | ⟨u, h⟩
    · rw [h]
      exact calls_of_refused h rfl
    · rw [h]
      exact calls_of_call? h rfl
  | await origin f d =>
    rcases m.stepTask_await e j origin f d with h | ⟨o, h⟩ <;> rw [h]
    · exact calls_of_front rfl
    · exact conclude_calls origin f o
  | follow current backoff =>
    cases current with
    | none => exact calls_of_front (m.stepDetached_front e j backoff)
    | some p => exact calls_of_front (m.stepFollow_front j p.1 p.2 backoff)
  | pause backoff d =>
    simp only [stepTask, stepPause]
    rcases m.call?_receipt j (subscription e) with h | ⟨u, h⟩
    · rw [h]
      exact calls_of_refused h rfl
    · rw [h]
      exact calls_of_call? h rfl

/-- Whatever gets into the queue is an acknowledgment, or what a job has asked for. -/
theorem errand_of_after {h : Happening} {x : Session.Errand}
    (hx : x ∈ (m.after e h).session.line.errands) (hnew : x ∉ m.session.line.errands) :
    x.freight = .acknowledgment ∨ ∃ j t r, h = .step j ∧ m.task? j = some t ∧
      m.readyTask e j t = true ∧ m.asks? e t = some r ∧
      x = ⟨j, .command (r.command m.session.state.nextId)⟩ := by
  have hsilent (hs : m.session.Silent (m.after e h).session) : x.freight = .acknowledgment :=
    (hs.errands hx).resolve_left hnew
  by_cases hstep : ∃ j, h = .step j
  · obtain ⟨j, rfl⟩ := hstep
    cases ht : m.task? j with
    | none => exact .inl (hsilent (.inl (by rw [after, step, ht])))
    | some t =>
      by_cases hready : m.readyTask e j t = true
      · have hcalls := stepTask_calls hready
        rw [← step_of_ready ht hready] at hcalls
        cases hr : m.asks? e t with
        | none => exact .inl (hsilent (hcalls.silent hr))
        | some r =>
          refine .inr ⟨j, t, r, rfl, ht, hready, hr, ?_⟩
          have herrands := Session.errands_act (n := 0) (s := m.session) (.call j r)
          rw [← hcalls.asked r hr 0] at herrands
          have hmem : x ∈ m.session.line.errands ++ (m.session.joins? (.call j r)).toList :=
            herrands ▸ List.mem_append_right _ hx
          have hjoins := Option.mem_toList.mp ((List.mem_append.mp hmem).resolve_left hnew)
          simp only [Session.joins?] at hjoins
          split_ifs at hjoins
          exact (Option.some.inj hjoins).symm
      · exact .inl (hsilent (.inl (congrArg Machine.session (step_of_not_ready ht hready))))
  by_cases hcall : ∃ n c, h = .call n c
  · obtain ⟨n, c, rfl⟩ := hcall
    exact absurd hx hnew
  · have hout := after_outside m (e := e) (fun j hj => hstep ⟨j, hj⟩)
      fun n c hc => hcall ⟨n, c, hc⟩
    rcases hout.acts with hs | ⟨n, a, ha, hs⟩
    · exact .inl (hsilent (.inl hs))
    · rw [hs, Session.act_line_of_quiet ha] at hx
      exact absurd hx hnew

end Relay.Machine

end ShipBridge
