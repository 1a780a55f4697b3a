import ShipBridge.Proofs.Relay.JobSuccessors

/-!
# The pokes of a notification

A notification of the editor is poked at the ship at once, and if its method is the one that is
redelivered its envelope is poked once more later on. Until then a job owes the second copy: first
the job that sends the first one, and when that sending has ended, however it may have ended, a job
of its own that waits. Whatever has been attempted, together with what is still owed, is two copies
of each notification with that method and one of each other.
-/

namespace ShipBridge.Relay

open Session (Answer)

def Output.message? : Output → Option Editor.Message
  | .message m => some m
  | _ => none

/-- The envelopes that a task has still to poke at the ship a second time. -/
def Task.owes (redelivered : String) : Task → List Json
  | .sending (.notification _ method envelope _ _) =>
    if method = redelivered then [envelope] else []
  | .redeliver envelope _ => [envelope]
  | _ => []

theorem Task.owes_of_strand {t : Task} (h : t.strand ≠ .notification) (redelivered : String) :
    t.owes redelivered = [] := by
  cases t with
  | sending p => cases p <;> first | rfl | exact absurd rfl h
  | redeliver envelope d => exact absurd rfl h
  | _ => rfl

theorem owes_sourceNext (source : Source) (method redelivered : String) :
    (Source.next method source).toList.flatMap (Task.owes redelivered) = [] := by
  cases source with
  | caller n => rfl
  | editor conversation =>
    simp only [Source.next]
    split_ifs <;> rfl

namespace Notification

def envelope (n : Notification) : Json := Relay.envelope none n.method n.params

def copies (redelivered : String) (n : Notification) : List Json :=
  List.replicate (if n.method = redelivered then 2 else 1) n.envelope

theorem copies_eq (redelivered : String) (n : Notification) : n.copies redelivered =
    n.envelope :: if n.method = redelivered then [n.envelope] else [] := by
  unfold copies
  split_ifs <;> rfl

end Notification

namespace Machine

variable (e : Surroundings) (m : Machine)

def attempts? : Task → Option Json
  | .redeliver envelope _ => some envelope
  | t => (m.handles? e t).map Notification.envelope

/-- The notification that a happening begins to handle. -/
def handled? : Happening → Option Notification
  | .step j => (m.task? j).bind fun t => if m.readyTask e j t then m.handles? e t else none
  | _ => none

/-- The envelope that a happening pokes at the ship as a notification, or tries to. -/
def attempted? : Happening → Option Json
  | .step j => (m.task? j).bind fun t => if m.readyTask e j t then m.attempts? e t else none
  | _ => none

def owed : List Json := m.jobs.flatMap fun p => p.2.owes e.settings.redelivered

def messages : List Editor.Message := m.log.filterMap Output.message?

def secondCopy (method : String) (envelope : Json) (d : Timer) : List Task :=
  if method = e.settings.redelivered then [.redeliver envelope d] else []

def watches (id ticket : Nat) (d : Timer) : Answer → List Task
  | .ok () => [.watch id ticket d]
  | .error _ => []

variable {e m} {m' u : Machine} {j : Nat} {t : Task} {source : Source} {method : String}
  {body : Json} {id ticket : Nat} {new : List Task}

/-! ## What the editor does not notice -/

/-- Nothing has been said to the editor, and no request has been entered, answered or taken out. -/
structure Discreet (m m' : Machine) : Prop where
  pending : m'.pending = m.pending
  messages : m'.messages = m.messages

namespace Discreet

theorem refl (m : Machine) : Discreet m m := ⟨rfl, rfl⟩

theorem of_log {v : Machine} (h : Discreet m u) (hp : v.pending = u.pending)
    (hl : v.log = u.log) : Discreet m v :=
  ⟨hp.trans h.pending, (congrArg (List.filterMap Output.message?) hl).trans h.messages⟩

theorem emit (h : Discreet m u) {o : Output} (ho : o.message? = none) : Discreet m (u.emit o) :=
  ⟨h.pending, (List.filterMap_cons_none ho).trans h.messages⟩

theorem finish (h : Discreet m u) (j caller : Nat) (r : Result) (held : Option Holding) :
    Discreet m (u.finish j caller r held) := (h.emit (o := .finished caller r held) rfl).of_log rfl rfl

theorem afterNotification (h : Discreet m u) (method : String) (body : Json) :
    Discreet m (u.afterNotification e method body) := by
  unfold Machine.afterNotification
  split_ifs
  · exact h.of_log rfl rfl
  · exact h

theorem resume (h : Discreet m u) (j : Nat) (source : Source) (method : String) :
    Discreet m (u.resume j source method) := by
  cases source with
  | caller n => exact h.finish j n _ none
  | editor conversation =>
    simp only [Machine.resume]
    split_ifs
    · exact h.finish j conversation _ none
    · exact h.of_log rfl rfl

theorem puts (h : Puts m m') : Discreet m m' := by
  obtain ⟨batch, -, hlog⟩ := h.put
  exact ⟨h.pending, (congrArg (List.filterMap Output.message?) hlog).trans
    (List.filterMap_cons_none rfl)⟩

theorem passesOn {a : Answer} (h : PassesOn j a m u) : Discreet m u :=
  ⟨h.pending, congrArg (List.filterMap Output.message?) h.log⟩

/-- The end of a sending that was for no request. -/
theorem sent (h : Discreet m u) {p : Purpose} {c : Care} (hc : p.care? = some c)
    (hr : c.request? = none) (j : Nat) (a : Answer) : Discreet m (u.sent e j p a) := by
  cases p with
  | poke caller id ticket wait =>
    cases a with
    | ok =>
      simp only [Machine.sent]
      split_ifs
      · exact h.of_log rfl rfl
      · exact h.finish j caller _ _
    | error f => exact h.finish j caller _ none
  | notification source method body id ticket =>
    cases a with
    | ok =>
      exact ((h.of_log (v := u.spawnWatch e id ticket) rfl rfl).afterNotification method
        body).resume j source method
    | error f => exact (h.afterNotification method body).resume j source method
  | copy id ticket => cases a <;> exact h.of_log rfl rfl
  | request origin f =>
    rw [← Option.some.inj hc] at hr
    cases hr
  | forward caller f =>
    rw [← Option.some.inj hc] at hr
    cases hr
  | _ => cases hc

end Discreet

theorem discreet_of_care {c : Care} (hc : t.care? = some c) (hr : c.request? = none)
    (hready : m.readyTask e j t = true) : Discreet m (m.stepTask e j t) := by
  have hrefl := Discreet.refl m
  cases t with
  | sending p =>
    rcases stepSending_cases hready with hput | ⟨a, u, hpass, heq⟩
    · exact .puts hput
    · rw [stepTask, heq]
      exact (Discreet.passesOn hpass).sent hc hr j a
  | outcome caller ticket =>
    simp only [stepTask]
    split
    · exact hrefl.finish j caller _ none
    · exact hrefl.finish j caller _ none
    · exact hrefl
  | start caller call =>
    cases call with
    | outcome ticket => exact hrefl.of_log rfl rfl
    | await f =>
      rw [← Option.some.inj hc] at hr
      cases hr
    | _ => cases hc
  | watch id ticket d =>
    simp only [stepTask]
    split
    · exact hrefl.of_log rfl rfl
    · split_ifs
      · exact hrefl.of_log rfl rfl
      · exact hrefl
  | await origin f d =>
    rw [← Option.some.inj hc] at hr
    cases hr
  | _ => cases hc

/-- The job of the stream takes in events and opens the stream again, and is not noticed by the
editor. -/
theorem discreet_stream : Discreet m (m.stepStream e j) := by
  have hrefl := Discreet.refl m
  have hfail : Discreet m (m.failStream e j) := by
    simp only [failStream, pauseStream]
    split
    · exact hrefl.of_log rfl rfl
    · split <;> exact hrefl.of_log rfl rfl
  have hawaken : Discreet m (m.awakenStream j) := by
    simp only [awakenStream]
    split
    · next resume x _ =>
      exact ((hrefl.of_log (v := { m with session := x, reached := none }) rfl rfl).emit
        (o := .opening resume) rfl).of_log rfl rfl
    · exact hrefl.of_log rfl rfl
  unfold stepStream
  split
  · exact hrefl.of_log rfl rfl
  · split
    · exact hawaken
    · exact hawaken
    · split
      · exact hrefl
      · exact hfail
      · dsimp only
        split_ifs <;> exact hrefl.of_log rfl rfl
    · split
      · exact hrefl.of_log rfl rfl
      · exact hfail
      · split_ifs
        · exact hfail
        · exact hrefl
    · exact hrefl.of_log rfl rfl
    · exact hrefl.of_log rfl rfl

/-! ## Jobs that a notification sets going -/

theorem call?_grows {r : Session.Request} {receipt : Session.Receipt}
    (h : m.call? j r = some (receipt, u)) :
    m.session.call? j r = some (receipt, u.session) ∧ Grows [] m u ∧ u.pending = m.pending ∧
      u.log = m.log := by
  obtain ⟨⟨receipt', x⟩, hx, heq⟩ := Option.map_eq_some_iff.mp h
  obtain ⟨rfl, rfl⟩ := Prod.mk.inj heq
  have hstream : x.stream = m.session.stream := by
    simp only [Session.call?] at hx
    split at hx
    · cases hx
    · rw [← (Prod.mk.inj (Option.some.inj hx)).2]
  have hnone : ¬(m.session.stream = .unborn ∧ x.stream = .born) := by
    rintro ⟨hu, hb⟩
    rw [hstream, hu] at hb
    cases hb
  have hsame : m.withSession x = { m with session := x } := if_neg hnone
  rw [hsame]
  exact ⟨hx, (Grows.refl m).of_jobs rfl rfl, rfl, rfl⟩

theorem afterNotification_grows (h : Grows new m u) (method : String) (body : Json) :
    ∃ d, d.due = u.now + e.settings.notificationDelay.millisCeil ∧
      Grows (new ++ secondCopy e method body d) m (u.afterNotification e method body) := by
  refine ⟨(u.timer e.settings.notificationDelay).1, rfl, ?_⟩
  unfold afterNotification secondCopy
  split_ifs
  · exact (h.of_jobs (v := (u.timer e.settings.notificationDelay).2) rfl rfl).spawn _
  · rwa [List.append_nil]

theorem resume_sequel (h : Grows new m u) (hj : j < m.born) (source : Source) (method : String) :
    Sequel j (Source.next method source) new m (u.resume j source method) := by
  cases source with
  | caller n => exact h.finish hj n _ none
  | editor conversation =>
    simp only [resume, Source.next]
    split_ifs
    · exact h.finish hj conversation _ none
    · exact h.become hj _

/-- A notification is called for, or it is refused and its second copy is seen to at once. -/
structure Begins (e : Surroundings) (j : Nat) (n : Notification) (m m' : Machine) : Prop where
  called : (∃ id ticket, m.session.call? j (pokeRequest e notificationMark n.envelope) =
      some (.poke id ticket, m'.session) ∧
    Sequel j (some (.sending (.notification n.source n.method n.envelope id ticket))) [] m m') ∨
    (m.session.call? j (pokeRequest e notificationMark n.envelope) = none ∧
      m'.session = m.session ∧
      ∃ d, d.due = m.now + e.settings.notificationDelay.millisCeil ∧
        Sequel j (Source.next n.method n.source) (secondCopy e n.method n.envelope d) m m')
  discreet : Discreet m m'

theorem notify_begins (hj : j < m.born) (n : Notification) :
    Begins e j n m (m.notify e j n.source n.method n.params) := by
  simp only [notify]
  rcases call?_poke (e := e) m j notificationMark n.envelope with ⟨id, ticket, u, h⟩ | h
  · obtain ⟨hcall, hgrows, hpending, hlog⟩ := call?_grows h
    rw [show Relay.envelope none n.method n.params = n.envelope from rfl, h]
    exact ⟨.inl ⟨id, ticket, hcall, hgrows.become hj _⟩, (Discreet.refl m).of_log hpending hlog⟩
  · rw [show Relay.envelope none n.method n.params = n.envelope from rfl, h]
    obtain ⟨d, hd, hgrows⟩ := afterNotification_grows (e := e) (Grows.refl m) n.method n.envelope
    have hfront := (resume_front (m.afterNotification e n.method n.envelope) j n.source
      n.method).trans (m.afterNotification_front e n.method n.envelope)
    exact ⟨.inr ⟨call?_eq_none h, congrArg Session.Front.session hfront, d, hd,
      resume_sequel hgrows hj n.source n.method⟩,
      ((Discreet.refl m).afterNotification n.method n.envelope).resume j n.source n.method⟩

theorem handles_begins (hn : m.Numbered) (ht : m.task? j = some t)
    (hready : m.readyTask e j t = true) {n : Notification} (hh : m.handles? e t = some n) :
    Begins e j n m (m.step e j) := by
  have hj : j < m.born := hn.below _ (mem_of_task? ht)
  rw [step_of_ready ht hready]
  cases t with
  | start caller c =>
    cases c with
    | notify =>
      obtain rfl := Option.some.inj hh
      exact notify_begins hj _
    | _ => cases hh
  | converse conversation =>
    simp only [handles?] at hh
    split at hh
    · next body rest hscan =>
      split at hh
      · next turn method params hturn =>
        obtain rfl := Option.some.inj hh
        have hstep : m.stepTask e j (.converse conversation) =
            { m with input := rest }.notify e j (.editor conversation) method params := by
          simp only [stepTask, stepConverse, hscan, hturn, stepTurn]
        obtain ⟨hcalled, hdiscreet⟩ := notify_begins (e := e) (m := { m with input := rest }) hj
          ⟨.editor conversation, method, params⟩
        rw [hstep]
        refine ⟨hcalled.imp ?_ ?_, ⟨hdiscreet.pending, hdiscreet.messages⟩⟩
        · rintro ⟨id, ticket, hcall, hseq⟩
          exact ⟨id, ticket, hcall, ⟨hseq.jobs, hseq.born⟩⟩
        · rintro ⟨hcall, hsession, d, hd, hseq⟩
          exact ⟨hcall, hsession, d, hd, ⟨hseq.jobs, hseq.born⟩⟩
      · cases hh
    · cases hh
  | _ => cases hh

theorem sent_session (u : Machine) (j : Nat) (p : Purpose) (a : Answer) :
    (u.sent e j p a).session = u.session := congrArg Session.Front.session (sent_front e u j p a)

/-- What follows the end of a sending leaves the session as the sending has left it. -/
theorem PassesOn.passes_sent {a : Answer} {u : Machine} (h : PassesOn j a m u) (p : Purpose) :
    m.session.Passes j a (u.sent e j p a).session := by
  rw [sent_session]
  exact h.passes

/-- A step of a job that sends puts its batch on the way, or the sending ends. -/
theorem sending_sequel {p : Purpose} (hn : m.Numbered) (ht : m.task? j = some (.sending p))
    (hready : m.readyTask e j (.sending p) = true) :
    (Puts m (m.step e j) ∧ Sequel j (some (.sending p)) [] m (m.step e j)) ∨
    ∃ a u new, m.step e j = u.sent e j p a ∧ m.session.Passes j a (u.sent e j p a).session ∧
      (∀ t ∈ new, t = .stream none) ∧ u.now = m.now ∧ Grows new m u := by
  rw [step_of_ready ht hready, stepTask]
  rcases stepSending_cases hready with hput | ⟨a, u, hpass, heq⟩
  · exact .inl ⟨hput, hput.grows.stays hn ht⟩
  · obtain ⟨new, hgrows, hnew⟩ := hpass.grows
    exact .inr ⟨a, u, new, heq, hpass.passes_sent p, hnew, hpass.now, hgrows⟩

/-- A step of the job that sends the first copy: its batch is put on the way, or the sending has
ended. -/
theorem notification_sequel (hn : m.Numbered)
    (ht : m.task? j = some (.sending (.notification source method body id ticket)))
    (hready : m.readyTask e j (.sending (.notification source method body id ticket)) = true) :
    (Puts m (m.step e j) ∧
      Sequel j (some (.sending (.notification source method body id ticket))) [] m
        (m.step e j)) ∨
    ∃ a new w d, m.session.Passes j a (m.step e j).session ∧ (∀ t ∈ new, t = .stream none) ∧
      w.due = m.now + e.settings.requestTimeout.millisCeil ∧
      d.due = m.now + e.settings.notificationDelay.millisCeil ∧
      Sequel j (Source.next method source)
        (new ++ watches id ticket w a ++ secondCopy e method body d) m (m.step e j) := by
  have hj : j < m.born := hn.below _ (mem_of_task? ht)
  rcases sending_sequel hn ht hready with hput | ⟨a, u, new, heq, hpasses, hnew, hnow, hgrows⟩
  · exact .inl hput
  · rw [heq]
    cases a with
    | ok =>
      have hwatch : Grows (new ++ [.watch id ticket (u.timer e.settings.requestTimeout).1]) m
          (u.spawnWatch e id ticket) :=
        (hgrows.of_jobs (v := (u.timer e.settings.requestTimeout).2) rfl rfl).spawn _
      obtain ⟨d, hd, hcopy⟩ := afterNotification_grows (e := e) hwatch method body
      refine .inr ⟨.ok (), new, (u.timer e.settings.requestTimeout).1, d, hpasses, hnew, ?_, ?_,
        resume_sequel hcopy hj source method⟩
      · exact congrArg (· + e.settings.requestTimeout.millisCeil) hnow
      · exact hd.trans (congrArg (· + e.settings.notificationDelay.millisCeil) hnow)
    | error f =>
      obtain ⟨d, hd, hcopy⟩ := afterNotification_grows (e := e) hgrows method body
      refine .inr ⟨.error f, new, ⟨m.now + e.settings.requestTimeout.millisCeil, 0⟩, d, hpasses,
        hnew, rfl, hd.trans (by rw [hnow]), ?_⟩
      rw [watches, List.append_nil]
      exact resume_sequel hcopy hj source method

/-- A step of the job that sends the second copy: its batch is put on the way, or the sending has
ended. -/
theorem copy_sequel (hn : m.Numbered) (ht : m.task? j = some (.sending (.copy id ticket)))
    (hready : m.readyTask e j (.sending (.copy id ticket)) = true) :
    (Puts m (m.step e j) ∧ Sequel j (some (.sending (.copy id ticket))) [] m (m.step e j)) ∨
    ∃ a new w, m.session.Passes j a (m.step e j).session ∧ (∀ t ∈ new, t = .stream none) ∧
      w.due = m.now + e.settings.requestTimeout.millisCeil ∧
      Sequel j (watches id ticket w a).head? new m (m.step e j) := by
  have hj : j < m.born := hn.below _ (mem_of_task? ht)
  rcases sending_sequel hn ht hready with hput | ⟨a, u, new, heq, hpasses, hnew, hnow, hgrows⟩
  · exact .inl hput
  · rw [heq]
    cases a with
    | ok =>
      refine .inr ⟨.ok (), new, (u.timer e.settings.requestTimeout).1, hpasses, hnew, ?_, ?_⟩
      · exact congrArg (· + e.settings.requestTimeout.millisCeil) hnow
      · exact (hgrows.of_jobs (v := (u.timer e.settings.requestTimeout).2) rfl rfl).become hj _
    | error f =>
      exact .inr ⟨.error f, new, ⟨m.now + e.settings.requestTimeout.millisCeil, 0⟩, hpasses, hnew,
        rfl, hgrows.dismiss hj⟩

theorem redeliver_sequel {d : Timer} (hn : m.Numbered)
    (ht : m.task? j = some (.redeliver body d)) (hdue : m.isDue d = true) :
    (∃ id ticket, m.session.call? j (pokeRequest e notificationMark body) =
        some (.poke id ticket, (m.step e j).session) ∧
      Sequel j (some (.sending (.copy id ticket))) [] m (m.step e j)) ∨
    (m.session.call? j (pokeRequest e notificationMark body) = none ∧
      (m.step e j).session = m.session ∧ Sequel j none [] m (m.step e j)) := by
  have hj : j < m.born := hn.below _ (mem_of_task? ht)
  rw [step_of_ready ht hdue]
  simp only [stepTask]
  rcases call?_poke (e := e) m j notificationMark body with ⟨id, ticket, u, h⟩ | h
  · obtain ⟨hcall, hgrows, -⟩ := call?_grows h
    rw [h]
    exact .inl ⟨id, ticket, hcall, hgrows.become hj _⟩
  · rw [h]
    exact .inr ⟨call?_eq_none h, rfl, (Grows.refl m).dismiss hj⟩

theorem watch_sequel {d : Timer} (hn : m.Numbered) (ht : m.task? j = some (.watch id ticket d))
    (hready : m.readyTask e j (.watch id ticket d) = true) :
    Sequel j none [] m (m.step e j) ∧
      ((m.step e j).session = m.session ∧
          (m.session.state.pokes.slot ticket).outcome?.isSome = true ∨
        (m.step e j).session = (m.session.forget id).2) := by
  have hj : j < m.born := hn.below _ (mem_of_task? ht)
  rw [step_of_ready ht hready]
  simp only [stepTask]
  cases ho : (m.session.state.pokes.slot ticket).outcome? with
  | some a => exact ⟨(Grows.refl m).dismiss hj, .inl ⟨rfl, rfl⟩⟩
  | none =>
    have hdue : m.isDue d = true := by
      simpa [readyTask, ho] using hready
    simp only [hdue, if_true]
    exact ⟨((Grows.refl m).of_jobs (v := { m with session := (m.session.forget id).2 }) rfl
      rfl).dismiss hj, .inr rfl⟩

/-! ## Any step -/

theorem step_sequel (hn : m.Numbered) (ht : m.task? j = some t)
    (hready : m.readyTask e j t = true) : ∃ next new, Sequel j next new m (m.step e j) := by
  cases hh : m.handles? e t with
  | some n =>
    rcases (handles_begins hn ht hready hh).called with ⟨_, _, -, hseq⟩ | ⟨-, -, _, -, hseq⟩
    · exact ⟨_, _, hseq⟩
    · exact ⟨_, _, hseq⟩
  | none =>
    obtain ⟨next, new, hseq, -⟩ := stepTask_leads hn ht hready hh
    rw [← step_of_ready ht hready] at hseq
    exact ⟨next, new, hseq⟩

theorem after_grows {h : Happening} (hh : ∀ j, h ≠ .step j) : ∃ new, Grows new m (m.after e h) := by
  have hrefl := Grows.refl m
  cases h with
  | step j => exact absurd rfl (hh j)
  | call n c => exact ⟨_, hrefl.spawn (.start n c)⟩
  | updated json =>
    obtain ⟨new, hgrows, -⟩ := (Swells.refl .other m).route json
    exact ⟨new, hgrows⟩
  | connect =>
    obtain ⟨new, hgrows, -⟩ := withSession_grows m m.session.connect
    exact ⟨new, hgrows⟩
  | _ => exact ⟨[], hrefl.of_jobs rfl rfl⟩

theorem task?_after (hn : m.Numbered) {i : Nat} {h : Happening} (hi : h ≠ .step i)
    (ht : m.task? i = some t) : (m.after e h).task? i = some t := by
  have hn' : (m.after e h).Numbered := (after_onward hn h).numbered hn
  by_cases hstep : ∃ j, h = .step j
  · obtain ⟨j, rfl⟩ := hstep
    cases hj : m.task? j with
    | none =>
      rw [after, step, hj]
      exact ht
    | some u =>
      by_cases hready : m.readyTask e j u = true
      · obtain ⟨next, new, hseq⟩ := step_sequel hn hj hready
        exact hseq.task?_of_ne hn' (fun heq => hi (heq ▸ rfl)) ht
      · rw [after, step_of_not_ready hj hready]
        exact ht
  · obtain ⟨new, hgrows⟩ := after_grows (e := e) (m := m) fun j hj => hstep ⟨j, hj⟩
    refine hn'.task?_of_mem ?_
    rw [hgrows.jobs]
    exact List.mem_append_left _ (mem_of_task? ht)

/-! ## Attempts and what is owed -/

theorem flatMap_secondCopy (method : String) (body : Json) (d : Timer) :
    (secondCopy e method body d).flatMap (Task.owes e.settings.redelivered) =
      if method = e.settings.redelivered then [body] else [] := by
  unfold secondCopy
  split_ifs <;> rfl

theorem flatMap_watches (redelivered : String) (id ticket : Nat) (w : Timer) (a : Answer) :
    (watches id ticket w a).flatMap (Task.owes redelivered) = [] := by
  cases a <;> rfl

theorem flatMap_of_strand {ts : List Task} (h : ∀ t ∈ ts, t.strand ≠ .notification)
    (redelivered : String) : ts.flatMap (Task.owes redelivered) = [] :=
  List.flatMap_eq_nil_iff.mpr fun t ht => Task.owes_of_strand (h t ht) redelivered

theorem attempts?_of_strand (hs : t.strand ≠ .notification) (hh : m.handles? e t = none) :
    m.attempts? e t = none := by
  cases t with
  | redeliver body d => exact absurd rfl hs
  | _ => simp only [attempts?, hh, Option.map_none]

theorem attempts?_of_handles {n : Notification} (hh : m.handles? e t = some n) :
    m.attempts? e t = some n.envelope := by
  cases t with
  | redeliver body d => cases hh
  | _ => simp only [attempts?, hh, Option.map_some]

/-- What a step attempts, and what is owed after it, is what was owed before it, and the copies of
the notification that it begins to handle. -/
theorem stepTask_owed (hn : m.Numbered) (ht : m.task? j = some t)
    (hready : m.readyTask e j t = true) :
    ((m.attempts? e t).toList ++ (m.step e j).owed e).Perm
      (m.owed e ++ (m.handles? e t).elim [] (Notification.copies e.settings.redelivered)) := by
  have hcollect {next : Option Task} {new : List Task} (h : Sequel j next new m (m.step e j)) :=
    h.flatMap_perm (Task.owes e.settings.redelivered) hn ht
  -- the task's own debt is on both sides, so that the count can be compared body by body
  have hcount {next : Option Task} {new : List Task} (h : Sequel j next new m (m.step e j))
      {attempt fresh : List Json}
      (hdebt : (attempt ++ (next.toList ++ new).flatMap (Task.owes e.settings.redelivered)).Perm
        (t.owes e.settings.redelivered ++ fresh)) :
      (attempt ++ (m.step e j).owed e).Perm (m.owed e ++ fresh) := by
    classical
    have hleft := hcollect h
    rw [List.perm_iff_count] at hleft hdebt ⊢
    intro a
    have hl := hleft a
    have hd := hdebt a
    simp only [List.count_append] at hl hd ⊢
    simp only [owed]
    omega
  cases hh : m.handles? e t with
  | some n =>
    have hfree : t.owes e.settings.redelivered = [] := by
      cases t with
      | sending p => cases hh
      | redeliver body d => cases hh
      | _ => rfl
    rw [attempts?_of_handles hh, Option.elim_some, Notification.copies_eq]
    rcases (handles_begins hn ht hready hh).called with ⟨id, ticket, -, hseq⟩ | ⟨-, -, d, -, hseq⟩
    · refine hcount hseq ?_
      rw [hfree]
      exact .of_eq (by simp [Task.owes])
    · refine hcount hseq ?_
      rw [hfree, List.flatMap_append, owes_sourceNext, flatMap_secondCopy]
      exact .of_eq (by simp)
  | none =>
    rw [Option.elim_none]
    by_cases hs : t.strand = .notification
    · cases t with
      | start caller c =>
        cases c with
        | notify => cases hh
        | _ => cases hs
      | sending p =>
        cases p with
        | notification source method body id ticket =>
          rcases notification_sequel hn ht hready with ⟨-, hseq⟩ | ⟨a, new, w, d, -, hnew, -, -, hseq⟩
          · exact hcount hseq (.of_eq (by simp [attempts?, handles?]))
          · refine hcount hseq (.of_eq ?_)
            have hplain : new.flatMap (Task.owes e.settings.redelivered) = [] :=
              flatMap_of_strand (fun t ht => by rw [hnew t ht]; decide) _
            simp only [List.flatMap_append, owes_sourceNext, hplain, flatMap_watches,
              flatMap_secondCopy, attempts?, handles?, Option.map_none, Option.toList_none,
              List.nil_append, List.append_nil]
            rfl
        | copy id ticket =>
          rcases copy_sequel hn ht hready with ⟨-, hseq⟩ | ⟨a, new, w, -, hnew, -, hseq⟩
          · exact hcount hseq (.of_eq (by simp [attempts?, handles?]))
          · refine hcount hseq (.of_eq ?_)
            have hplain : new.flatMap (Task.owes e.settings.redelivered) = [] :=
              flatMap_of_strand (fun t ht => by rw [hnew t ht]; decide) _
            cases a <;>
              simp [hplain, watches, attempts?, handles?, Task.owes]
        | _ => cases hs
      | redeliver body d =>
        rcases redeliver_sequel hn ht hready with ⟨id, ticket, -, hseq⟩ | ⟨-, -, hseq⟩
        · exact hcount hseq (.of_eq (by simp [attempts?, Task.owes]))
        · exact hcount hseq (.of_eq (by simp [attempts?, Task.owes]))
      | watch id ticket d =>
        exact hcount (watch_sequel hn ht hready).1 (.of_eq (by simp [attempts?, handles?, Task.owes]))
      | _ => cases hs
    · obtain ⟨next, new, hseq, hwithin⟩ := stepTask_leads hn ht hready hh
      rw [← step_of_ready ht hready] at hseq
      refine hcount hseq (.of_eq ?_)
      rw [attempts?_of_strand hs hh, Task.owes_of_strand hs,
        flatMap_of_strand (fun u hu => ?_)]
      · rfl
      · rcases hwithin u hu with h | h
        · rw [h]
          decide
        · rw [h]
          exact hs

/-- What happens outside begins nothing and leaves what is owed as it is. -/
theorem owed_of_outside {h : Happening} (hh : ∀ j, h ≠ .step j) :
    (m.after e h).owed e = m.owed e := by
  have hspawn (v : Machine) {t : Task} (ht : t.owes e.settings.redelivered = []) :
      (v.spawn t).owed e = v.owed e := by
    simp [owed, spawn, ht]
  have hsend (message : Editor.Message) : (m.send message).2.owed e = m.owed e := by
    unfold send
    split
    · rfl
    · exact hspawn { m with outlet := .failing } rfl
    · rfl
    · rfl
  cases h with
  | step j => exact absurd rfl (hh j)
  | call n c => exact hspawn m rfl
  | updated json =>
    simp only [after, route]
    split
    · rfl
    · exact hsend _
    · rfl
  | connect =>
    simp only [after, withSession]
    split_ifs
    · exact hspawn { m with session := m.session.connect } rfl
    · rfl
  | _ => rfl

theorem after_owed (hn : m.Numbered) (h : Happening) :
    ((m.attempted? e h).toList ++ (m.after e h).owed e).Perm
      (m.owed e ++ (m.handled? e h).elim [] (Notification.copies e.settings.redelivered)) := by
  by_cases hstep : ∃ j, h = .step j
  · obtain ⟨j, rfl⟩ := hstep
    simp only [attempted?, handled?, after]
    cases ht : m.task? j with
    | none =>
      rw [step, ht]
      simp
    | some t =>
      by_cases hready : m.readyTask e j t = true
      · simpa [hready] using stepTask_owed hn ht hready
      · rw [step, ht]
        simp [hready]
  · have hnone : m.attempted? e h = none ∧ m.handled? e h = none := by
      cases h with
      | step j => exact absurd ⟨j, rfl⟩ hstep
      | _ => exact ⟨rfl, rfl⟩
    rw [hnone.1, hnone.2, owed_of_outside fun j hj => hstep ⟨j, hj⟩]
    simp

/-- What has been attempted in a run, and what is owed at its end, are the copies of all
notifications that have been handled. -/
theorem run_owed (hm : m.Orderly) (howed : m.owed e = []) (hs : List Happening) :
    ((trail e m hs).filterMap (fun q => q.1.attempted? e q.2) ++ (m.run e hs).owed e).Perm
      ((trail e m hs).flatMap fun q =>
        (q.1.handled? e q.2).elim [] (Notification.copies e.settings.redelivered)) := by
  induction hs using List.reverseRecOn with
  | nil =>
    rw [show m.run e [] = m from rfl, howed]
    exact .refl _
  | append_singleton hs h ih =>
    have hstep := after_owed (e := e) (hm.run (e := e) hs).numbered h
    rw [trail_append, run_append, List.filterMap_append, List.flatMap_append]
    classical
    rw [List.perm_iff_count] at ih hstep ⊢
    intro a
    have hih := ih a
    have hs' := hstep a
    simp only [trail, run, List.foldl_cons, List.foldl_nil, List.flatMap_cons, List.flatMap_nil,
      List.append_nil, List.count_append] at hih hs' ⊢
    have hone : List.filterMap (fun q : Machine × Happening => q.1.attempted? e q.2)
        [(List.foldl (after e) m hs, h)] =
          ((List.foldl (after e) m hs).attempted? e h).toList := by
      cases hx : (List.foldl (after e) m hs).attempted? e h <;> simp [hx]
    rw [hone]
    omega

end Machine

end ShipBridge.Relay
