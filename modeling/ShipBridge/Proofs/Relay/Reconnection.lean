import ShipBridge.Proofs.Relay.LineErrands
import ShipBridge.Proofs.Relay.StreamInvariant

/-!
# The stream is opened again

A stream that cannot be opened, ends or breaks has failed. As long as the policy allows, the bridge
waits and opens it again, from the last event that has been taken in; each success begins the count
of failures anew. Once there have been too many in a row the session is closed and nothing more is
opened. A success after any failure sets off one acknowledgment. All this holds after every run in
which nobody closes the session.
-/

namespace ShipBridge

namespace Session

variable {s : Session}

theorem joins?_of_leaves {a : Action} {x : Errand} (h : s.leaves? a = some x) :
    s.joins? a = none := by
  cases a <;> first | rfl | cases h

section Acknowledging

variable {owner : Nat} {w : List Errand} (hl : s.line = .granted ⟨owner, .acknowledgment⟩ w)

include hl

theorem proceed?_of_behind (hfresh : s.state.IsFresh) (hc : s.state.isClosed = false)
    (h : s.state.acknowledged < s.state.received) :
    ∃ t, s.proceed? = some (.send [.ack s.state.received], t) := by
  have hany : s.state.receivedAny = true := by
    by_contra hany
    have hzero := hfresh (by simpa using hany)
    omega
  have hidle : s.state.isIdle .acknowledgment = false := by
    simp only [State.isIdle, hany, Bool.not_true, Bool.false_or, beq_eq_false_iff_ne]
    omega
  have hcargo : s.state.cargo .acknowledgment = [.ack s.state.received] := by
    rw [State.cargo, State.takeAck_fst, if_neg (by omega)]
    rfl
  rw [proceed?_of_busy hl hc hidle, hcargo]
  exact ⟨_, rfl⟩

theorem proceed?_of_not_behind (hle : s.state.acknowledged ≤ s.state.received)
    (h : ¬(s.state.isClosed = false ∧ s.state.acknowledged < s.state.received)) :
    ∃ a t, s.proceed? = some (.done a, t) := by
  cases hc : s.state.isClosed with
  | true => exact ⟨_, proceed?_of_closed hc hl⟩
  | false =>
    have hlevel : s.state.acknowledged = s.state.received := by
      have := not_and.mp h hc
      omega
    exact ⟨.ok (), by simp [proceed?, hl, hc, hlevel]⟩

end Acknowledging

end Session

namespace Relay

namespace Machine

variable {e : Surroundings} {m m' : Machine} {past : List News} {taken : List Nat} {i j : Nat}
  {u v : Option Timer} {n : Nat}

/-! ## Waiting -/

/-- The stream waits: until the next news nothing comes of it, but one job opens it when it takes
its step at the given moment or later. -/
def Waits (e : Surroundings) (m : Machine) (due : Nat) : Prop :=
  ∃ j, ∀ hs, (∀ n, .call n .close ∉ hs) → m.news e hs = [] → ∀ h x,
    (m.run e hs).news? e h = some x ↔ h = .step j ∧ due ≤ (m.run e hs).now ∧
      x = .opens (m.run e hs).session.state.resumePoint

/-- A happening that is no news leaves a stream that waits alone. -/
theorem pausing_after (h : Tended e.reconnect.maxAttempts m past taken) (hn : m.Numbered)
    (hm : m.session.Joined) {b : Retry.Backoff} (hs : m.session.stream = .pausing b)
    {t : Timer} (manned : m.Manned j (some t)) {a : Happening} (ha : ∀ k, a ≠ .call k .close)
    (hsilent : m.news? e a = none) : (m.after e a).session.stream = .pausing b ∧
      (m.after e a).Manned j (some t) := by
  rcases after_cases h hn hm ha with ⟨i, u, rfl, -, hl⟩ | ⟨hapart, -⟩
  · cases hl with
    | waits news accepted eq =>
      rw [eq]
      exact ⟨hs, manned⟩
    | reads event rest stream news accepted eq =>
      rw [stream] at hs
      cases hs
    | _ => simp_all
  · rcases hapart.streams with ⟨hh, hj⟩ | ⟨hd, -⟩
    · exact ⟨(congrArg Session.Heading.stream hh).trans hs, fun i v => (hj i v).trans (manned i v)⟩
    · rw [hm hd] at hs
      cases hs

theorem Manned.unique (h : m.Manned i u) (h' : m.Manned j v) : i = j ∧ u = v := (h' i u).mp h.mem

theorem news?_pausing (h : Tended e.reconnect.maxAttempts m past taken) (hn : m.Numbered)
    (hm : m.session.Joined) {b : Retry.Backoff} (hs : m.session.stream = .pausing b)
    {t : Timer} (manned : m.Manned j (some t)) (a : Happening) (x : News) :
    m.news? e a = some x ↔
      a = .step j ∧ t.due ≤ m.now ∧ x = .opens m.session.state.resumePoint := by
  have hlook : if t.due ≤ m.now then
      m.news? e (.step j) = some (.opens m.session.state.resumePoint) ∧
        Look e j m (m.step e j) past
      else m.step e j = m ∧ m.news? e (.step j) = none ∧ m.accepted? (.step j) = none := by
    cases h.stage with
    | pausing c stream i t' manned' count allowed failed =>
      obtain ⟨rfl, heq⟩ := manned'.unique manned
      obtain rfl := Option.some.inj heq
      exact look_pausing h stream manned count allowed failed (hn.task?_of_mem manned.mem)
    | stuck c stream idle => exact absurd manned.mem (idle _ _)
    | _ => simp_all
  constructor
  · intro hx
    obtain ⟨i, rfl, hl⟩ := look_of_news h hn hm hx
    cases hl with
    | opens w c again news accepted silent manned' unfinished count allowed failed eq =>
      obtain ⟨rfl, -⟩ := manned'.unique manned
      split_ifs at hlook with hdue
      · exact ⟨rfl, hdue, Option.some.inj (hx.symm.trans news)⟩
      · rw [hlook.2.1] at hx
        cases hx
    | waits news accepted eq =>
      rw [news] at hx
      cases hx
    | reads event rest stream news accepted eq =>
      rw [news] at hx
      cases hx
    | succeeds again news accepted manned' unfinished failed session openings jobs =>
      cases (manned'.unique manned).2
    | fails c news accepted backoff manned' count allowed eq =>
      cases (manned'.unique manned).2
  · rintro ⟨rfl, hdue, rfl⟩
    rw [if_pos hdue] at hlook
    exact hlook.1

theorem waits_of_pausing {before : List Happening} (hbefore : ∀ k, .call k .close ∉ before)
    {b : Retry.Backoff} (hs : (run e {} before).session.stream = .pausing b) {t : Timer}
    (manned : (run e {} before).Manned j (some t)) : (run e {} before).Waits e t.due := by
  refine ⟨j, fun hs' hclose hsilent => ?_⟩
  have horderly (ks : List Happening) : (run e (run e {} before) ks).Numbered ∧
      (run e (run e {} before) ks).session.Joined := by
    rw [← run_append]
    exact ⟨(orderly_initial.run _).numbered, joined_run _⟩
  have htended {ks : List Happening} (hks : ∀ k, .call k .close ∉ ks) :
      Tended e.reconnect.maxAttempts (run e (run e {} before) ks) (news e {} (before ++ ks))
        (accepted e {} (before ++ ks)) := by
    rw [← run_append]
    refine tended_run fun k hk => ?_
    rcases List.mem_append.mp hk with hk | hk
    · exact hbefore k hk
    · exact hks k hk
  -- nothing but the news that it waits for moves the stream on
  have hpaused : (run e (run e {} before) hs').session.stream = .pausing b ∧
      (run e (run e {} before) hs').Manned j (some t) := by
    induction hs' using List.reverseRecOn with
    | nil => exact ⟨hs, manned⟩
    | append_singleton ks a ih =>
      obtain ⟨hks, ha⟩ := uncalled_concat.mp hclose
      rw [news_append, news_singleton, List.append_eq_nil_iff] at hsilent
      obtain ⟨hstream, hmanned⟩ := ih hks hsilent.1
      rw [run_append]
      exact pausing_after (htended hks) (horderly ks).1 (horderly ks).2 hstream hmanned ha
        (by simpa using hsilent.2)
  exact news?_pausing (htended hclose) (horderly hs').1 (horderly hs').2 hpaused.1 hpaused.2

/-! ## Acknowledgments -/

theorem Look.mem_jobs (hl : Look e j m m' past) {p : Nat × Task} (hp : p ∈ m'.jobs) :
    p ∈ m.jobs ∨ (∃ v, p.2 = .stream v) ∨
      (p.2 = .acknowledge ∧ m.news? e (.step j) = some .succeeds) := by
  have hbecome {w : Machine} {v : Option Timer} (hw : w.jobs = m.jobs)
      (hp : p ∈ (w.become j (.stream v)).jobs) : p ∈ m.jobs ∨ ∃ v, p.2 = .stream v := by
    rcases mem_become.mp hp with ⟨hp, -⟩ | ⟨rfl, -⟩
    · exact .inl (hw ▸ hp)
    · exact .inr ⟨v, rfl⟩
  cases hl with
  | waits news accepted eq => exact .inl (eq ▸ hp)
  | opens w b again news accepted silent manned unfinished count allowed failed eq =>
    rw [eq] at hp
    exact (hbecome (by rfl) hp).imp_right .inl
  | reads event rest stream news accepted eq => exact .inl (by rwa [eq] at hp)
  | succeeds again news accepted manned unfinished failed session openings jobs =>
    rw [jobs, List.mem_append] at hp
    refine hp.imp_right fun hp => .inr ⟨?_, news⟩
    cases again with
    | false => cases hp
    | true => rw [List.mem_singleton.mp hp]
  | fails b news accepted backoff manned count allowed eq =>
    rw [eq, failStream_jobs b backoff] at hp
    split_ifs at hp
    · split at hp
      · exact (hbecome rfl hp).imp_right .inl
      · exact .inl (mem_dismiss.mp hp).1
    · exact .inl (mem_dismiss.mp hp).1

/-- If an errand of a job is on the line before its step and one is there after it, it is the same:
what leaves the line leaves no room for it, and nothing joins the line then. -/
theorem errandsOf_step (hn : m.Numbered) {x y : Session.Errand}
    (hx : m.session.line.errandsOf i = [x])
    (hy : (m.step e i).session.line.errandsOf i = [y]) :
    (m.step e i).session.line.errandsOf i = [x] := by
  rcases (step_deed (e := e) hn i).leads with hsame | ⟨a, ha, hacts⟩
  · rw [hsame]
    exact hx
  · have howns := Session.errandsOf_own (n := e.reconnect.maxAttempts) ha
    rw [← hacts, hx, hy] at howns
    cases hleaves : m.session.leaves? a with
    | none =>
      rw [hleaves] at howns
      rw [hy, (List.cons.inj howns).1]
    | some z =>
      rw [hleaves, Session.joins?_of_leaves hleaves] at howns
      cases howns

/-- An acknowledgment that is being sent has its errand on the line. -/
theorem errand_of_acknowledgment {hs : List Happening} (hclose : ∀ k, .call k .close ∉ hs)
    (hi : (i, .sending .acknowledge) ∈ (run e {} hs).jobs) :
    (run e {} hs).session.line.errandsOf i = [⟨i, .acknowledgment⟩] := by
  induction hs using List.reverseRecOn with
  | nil => cases hi
  | append_singleton hs a ih =>
    obtain ⟨hbefore, ha⟩ := uncalled_concat.mp hclose
    have hn := (orderly_initial.run (e := e) hs).numbered
    have hlast : run e {} (hs ++ [a]) = (run e {} hs).after e a := run_append ..
    obtain ⟨r, hr, -⟩ := (lined_run (e := e) (hs ++ [a]) i).one .acknowledge ⟨hi, rfl⟩
    have hlone : ((run e {} hs).after e a).session.line.errandsOf i = [r] := hlast ▸ hr
    rw [hlast] at hi ⊢
    rcases after_cases (tended_run hbefore) hn (joined_run hs) ha with
      ⟨j, u, rfl, ht, hl⟩ | ⟨hapart, -⟩
    · rcases hl.mem_jobs hi with hi | ⟨v, hv⟩ | ⟨hv, -⟩
      · have hne : Happening.step j ≠ .step i := by
          rintro heq
          obtain rfl := Happening.step.inj heq
          rw [hn.task?_of_mem hi] at ht
          cases ht
        rw [errandsOf_after hn hne]
        exact ih hbefore hi
      · cases hv
      · cases hv
    · rcases hapart.sent i hi with hi | ⟨-, hqueued⟩
      · have hold := ih hbefore hi
        by_cases hstep : a = .step i
        · subst hstep
          exact errandsOf_step hn hold hlone
        · rw [errandsOf_after hn hstep]
          exact hold
      · have hjoined : ((run e {} hs).session.callAcknowledge i).line.errandsOf i =
            (run e {} hs).session.line.errandsOf i ++ [⟨i, .acknowledgment⟩] := by
          simp [Session.callAcknowledge, Session.Line.errandsOf]
        rw [hqueued, hjoined] at hlone ⊢
        have hnil : (run e {} hs).session.line.errandsOf i = [] :=
          List.length_eq_zero_iff.mp (by simpa using congrArg List.length hlone)
        rw [hnil]
        rfl

/-- What follows a sent acknowledgment asks the transport for nothing. -/
theorem sent_acknowledge_demanded (s : Session) (a : Session.Answer) :
    ((m.withSession s).sent e i .acknowledge a).demanded = m.demanded :=
  congrArg Session.Front.demanded
    (((m.withSession s).sent_front e i .acknowledge a).trans (m.withSession_front s))

/-- A job that is not granted the line waits or learns what became of its acknowledgment. -/
theorem step_acknowledging_of_not_granted (ht : m.task? i = some (.sending .acknowledge))
    (hg : m.session.line.granted? ≠ some i) : (m.step e i).demanded = m.demanded := by
  by_cases hready : m.readyTask e i (.sending .acknowledge) = true
  · have hsending : m.session.line.sending? = some i := by
      simp only [readyTask, Bool.or_eq_true, beq_iff_eq, Bool.and_eq_true] at hready
      exact (hready.resolve_left hg).1
    have hnone : m.session.proceed? = none := by
      cases hl : m.session.line with
      | sending r b d w => simp [Session.proceed?, hl]
      | _ => simp [hl, Session.Line.sending?] at hsending
    simp only [step, ht, hready, if_true, stepTask, stepSending, hnone]
    split
    · rfl
    · split
      · rfl
      · exact sent_acknowledge_demanded (m := { m with delivered := none }) _ _
  · simp only [step, ht, hready]
    rfl

/-- A step of a job that sends an acknowledgment puts it on its way if the line is the job's and
the acknowledgment is due, and asks the transport for nothing otherwise. -/
theorem step_acknowledging (ht : m.task? i = some (.sending .acknowledge))
    (hline : m.session.line.errandsOf i = [⟨i, .acknowledgment⟩])
    (hfresh : m.session.state.IsFresh)
    (hle : m.session.state.acknowledged ≤ m.session.state.received) : (m.step e i).demanded =
      (if m.session.line.granted? = some i ∧ m.session.state.isClosed = false ∧
        m.session.state.acknowledged < m.session.state.received
      then [.put [.ack m.session.state.received]] else []) ++ m.demanded := by
  by_cases hg : m.session.line.granted? = some i
  · obtain ⟨w, hl, -⟩ := Session.granted_of_sole hline hg
    have hstep : m.step e i = m.stepSending e i .acknowledge := by
      simp [step, ht, readyTask, hg, stepTask]
    rw [hstep, stepSending]
    by_cases hdue : m.session.state.isClosed = false ∧
        m.session.state.acknowledged < m.session.state.received
    · obtain ⟨t, hsend⟩ := Session.proceed?_of_behind hl hfresh hdue.1 hdue.2
      rw [hsend, if_pos ⟨hg, hdue⟩]
      rfl
    · obtain ⟨a, t, hdone⟩ := Session.proceed?_of_not_behind hl hle hdue
      rw [hdone, if_neg fun h => hdue h.2]
      exact sent_acknowledge_demanded t a
  · rw [if_neg fun h => hg h.1, step_acknowledging_of_not_granted ht hg]
    rfl

/-! ## The stream is kept open -/

theorem backoff?_of_heard {x : News} (h : m.heard? = some x) :
    ∃ b, m.session.stream.backoff? = some b := by
  unfold heard? at h
  split at h
  · next hs => exact ⟨_, by rw [hs]; rfl⟩
  · next hs => exact ⟨_, by rw [hs]; rfl⟩
  · cases h

section Moment

variable (h : Tended e.reconnect.maxAttempts m past taken) (hn : m.Numbered)
  (hm : m.session.Joined)

include h hn

theorem ready_of_heard {x : News} (hx : m.heard? = some x) :
    ∃ j, m.ready e j = true ∧ m.news? e (.step j) = some x := by
  obtain ⟨b, hb⟩ := backoff?_of_heard hx
  obtain ⟨j, manned, -⟩ := h.stage.of_backoff? hb
  have ht := hn.task?_of_mem manned.mem
  refine ⟨j, by simp [ready, ht, readyTask, streamReady_of_heard hx], ?_⟩
  rw [← hx]
  refine news?_step ht ?_
  cases look (e := e) h ht with
  | waits news accepted eq => rw [eq]
  | opens u b again news accepted silent manned unfinished count allowed failed eq =>
    rw [silent] at hx
    cases hx
  | reads event rest stream news accepted eq =>
    rw [eq]
    rfl
  | succeeds again news accepted manned unfinished failed session openings jobs => exact openings
  | fails b news accepted backoff manned count allowed eq => rw [eq, failStream_openings]

include hm

theorem opens_of_news {a : Happening} {resume : Option Nat}
    (hx : m.news? e a = some (.opens resume)) :
    (m.after e a).openings = resume :: m.openings ∧ resume = taken.getLast? ∧
      ∀ r ∈ m.openings, r ≤ resume := by
  obtain ⟨j, rfl, hl⟩ := look_of_news h hn hm hx
  cases hl with
  | opens u b again news accepted silent manned unfinished count allowed failed eq =>
    obtain rfl := News.opens.inj (Option.some.inj (hx.symm.trans news))
    refine ⟨by rw [eq]; rfl, h.tallied.resumePoint, h.passed⟩
  | _ => simp_all

theorem fails_of_news {a : Happening} (hx : m.news? e a = some .fails) :
    ∃ j b, m.session.stream.backoff? = some b ∧ m.Manned j none ∧ streak past = b.failures ∧
      b.failures ≤ e.reconnect.maxAttempts ∧ m.after e a = m.failStream e j := by
  obtain ⟨j, rfl, hl⟩ := look_of_news h hn hm hx
  cases hl with
  | fails b news accepted backoff manned count allowed eq =>
    exact ⟨j, b, backoff, manned, count, allowed, eq⟩
  | _ => simp_all

theorem givesUp_of_news {a : Happening} (hx : m.news? e a = some .fails)
    (hk : ¬streak past + 1 ≤ e.reconnect.maxAttempts) :
    streak past + 1 = e.reconnect.maxAttempts + 1 ∧
      m.session.state.tearDown? "event stream lost" = some (m.after e a).session.state ∧
      ∀ hs, ((m.after e a).run e hs).openings = (m.after e a).openings := by
  obtain ⟨j, b, hb, manned, count, allowed, heq⟩ := fails_of_news h hn hm hx
  have hle : e.reconnect.maxAttempts ≤ b.failures := by omega
  have htorn := failStream_state_of_le (j := j) h hb hle
  have hstopped : (m.failStream e j).session.Stopped :=
    ⟨(Session.State.isClosed_of_tearDown? htorn).2,
      .inr (.inr (by rw [failStream_session_of_le hb hle]))⟩
  rw [heq]
  refine ⟨by omega, htorn, fun hs => ?_⟩
  rw [openings_eq, openings_eq, demanded_of_stopped hstopped hs]

theorem lasts_of_open {a : Happening} (hopen : m.session.state.isClosed = false)
    (hclosed : (m.after e a).session.state.isClosed = true) : m.news? e a = some .fails ∧
      ¬streak past + 1 ≤ e.reconnect.maxAttempts := by
  have hsame : (m.after e a).session.state.isClosed ≠ m.session.state.isClosed := by
    rw [hopen, hclosed]
    nofun
  have ha (k : Nat) : a ≠ .call k .close := by
    rintro rfl
    exact hsame rfl
  rcases after_cases h hn hm ha with ⟨j, u, rfl, -, hl⟩ | ⟨hapart, -⟩
  · cases hl with
    | waits news accepted eq => exact absurd (by rw [eq]) hsame
    | opens u b again news accepted silent manned unfinished count allowed failed eq =>
      exact absurd (by rw [eq]; rfl) hsame
    | reads event rest stream news accepted eq =>
      refine absurd ?_ hsame
      rw [eq]
      exact Session.act_isClosed_of_ne (n := 0) (a := .receive event) nofun nofun
    | succeeds again news accepted manned unfinished failed session openings jobs =>
      exact absurd (by rw [session]) hsame
    | fails b news accepted backoff manned count allowed eq =>
      refine ⟨news, fun hk => hsame ?_⟩
      rw [eq, failStream_session_of_lt backoff (by omega)]
  · have htended := h.apart hm hapart
    rcases hapart.streams with ⟨hh, -⟩ | ⟨-, hh, -⟩
    · have hc : (m.after e a).session.state.connection = m.session.state.connection :=
        congrArg Session.Heading.connection hh
      exact absurd (by rw [Session.State.isClosed, hc]; rfl) hsame
    · have hs : (m.after e a).session.stream = .born := congrArg Session.Heading.stream hh
      rw [htended.closed.mp hclosed] at hs
      cases hs

theorem acknowledges_of_news {a : Happening} (hx : m.news? e a = some .succeeds) :
    (m.after e a).jobs = m.jobs ++ if .fails ∈ past then [(m.born, .acknowledge)] else [] := by
  obtain ⟨j, rfl, hl⟩ := look_of_news h hn hm hx
  cases hl with
  | succeeds again news accepted manned unfinished failed session openings jobs =>
    rw [jobs]
    simp only [failed]
  | _ => simp_all

theorem acknowledge_of_mem {a : Happening} (hx : m.news? e a ≠ some .succeeds)
    (hi : (i, .acknowledge) ∈ (m.after e a).jobs) : (i, .acknowledge) ∈ m.jobs := by
  by_cases ha : ∃ k, a = .call k .close
  · obtain ⟨k, rfl⟩ := ha
    exact (mem_spawn.mp hi).resolve_right fun h => by cases (Prod.mk.inj h).2
  · rcases after_cases h hn hm (not_exists.mp ha) with ⟨j, u, rfl, -, hl⟩ | ⟨hapart, -⟩
    · rcases hl.mem_jobs hi with hi | ⟨v, hv⟩ | ⟨-, hnews⟩
      · exact hi
      · cases hv
      · exact absurd hnews hx
    · exact hapart.begun i hi

end Moment

/-- How the bridge keeps the stream open, at a moment when `past` is all the news so far and `taken`
are the numbers of the events that have been taken in. -/
structure KeepsOpen (e : Surroundings) (m : Machine) (past : List News) (taken : List Nat) :
    Prop where
  /-- What is to be heard is heard: the job of the stream is ready. -/
  hears : ∀ x, m.heard? = some x → ∃ j, m.ready e j = true ∧ m.news? e (.step j) = some x
  /-- The stream is opened from the last event that has been taken in. -/
  opens : ∀ h resume, m.news? e h = some (.opens resume) →
    (m.after e h).openings = resume :: m.openings ∧ resume = taken.getLast? ∧
      ∀ r ∈ m.openings, r ≤ resume
  /-- After a failure that the policy allows the stream waits for the delay of that number. -/
  retries : ∀ h, m.news? e h = some .fails → streak past + 1 ≤ e.reconnect.maxAttempts →
    (m.after e h).session.state.isClosed = false ∧
      ∀ d, e.reconnect.drawn? (streak past) (e.factor m.timers) = some d →
        (m.after e h).Waits e (m.now + d.millisCeil)
  /-- Any other failure is the first one too many. It ends the session, and the stream is not opened
  any more. -/
  givesUp : ∀ h, m.news? e h = some .fails → ¬streak past + 1 ≤ e.reconnect.maxAttempts →
    streak past + 1 = e.reconnect.maxAttempts + 1 ∧
      m.session.state.tearDown? "event stream lost" = some (m.after e h).session.state ∧
      ∀ hs, ((m.after e h).run e hs).openings = (m.after e h).openings
  /-- Nothing else ends the session. -/
  lasts : ∀ h, m.session.state.isClosed = false →
    (m.after e h).session.state.isClosed = true → m.news? e h = some .fails ∧
      ¬streak past + 1 ≤ e.reconnect.maxAttempts
  /-- A success sets off one acknowledgment if there has been any failure, and none otherwise. -/
  acknowledges : ∀ h, m.news? e h = some .succeeds →
    (m.after e h).jobs = m.jobs ++ if .fails ∈ past then [(m.born, .acknowledge)] else []
  /-- Nothing else sets one off. -/
  acknowledgesOnly : ∀ h i, m.news? e h ≠ some .succeeds → (i, .acknowledge) ∈ (m.after e h).jobs →
    (i, .acknowledge) ∈ m.jobs
  /-- An acknowledgment queues for the line. -/
  queues : ∀ i, (i, .acknowledge) ∈ m.jobs → m.ready e i = true ∧
    (m.step e i).session = m.session.callAcknowledge i ∧
      (i, .sending .acknowledge) ∈ (m.step e i).jobs
  /-- When its turn comes it is sent by itself if it is behind, and nothing is sent otherwise. -/
  sends : ∀ i, (i, .sending .acknowledge) ∈ m.jobs → (m.step e i).demanded =
    (if m.session.line.granted? = some i ∧ m.session.state.isClosed = false ∧
      m.session.state.acknowledged < m.session.state.received
    then [.put [.ack m.session.state.received]] else []) ++ m.demanded

theorem waits_of_news {hs : List Happening} (hclose : ∀ k, .call k .close ∉ hs) {a : Happening}
    (hx : (run e {} hs).news? e a = some .fails)
    (hk : streak (news e {} hs) + 1 ≤ e.reconnect.maxAttempts) :
    ((run e {} hs).after e a).session.state.isClosed = false ∧
      ∀ d, e.reconnect.drawn? (streak (news e {} hs)) (e.factor (run e {} hs).timers) = some d →
        ((run e {} hs).after e a).Waits e ((run e {} hs).now + d.millisCeil) := by
  have h := tended_run (e := e) hclose
  have hn := (orderly_initial.run (e := e) hs).numbered
  obtain ⟨i, rfl, -⟩ := look_of_news h hn (joined_run hs) hx
  obtain ⟨j, b, hb, manned, count, allowed, heq⟩ := fails_of_news h hn (joined_run hs) hx
  have hlt : b.failures < e.reconnect.maxAttempts := by omega
  have hsession := failStream_session_of_lt (j := j) hb hlt
  refine ⟨?_, fun d hd => ?_⟩
  · rw [heq, hsession]
    exact h.isClosed_of_backoff? hb
  · have hlast (k : Nat) : .call k .close ∉ hs ++ [.step i] := by simpa using hclose k
    have hrun : run e {} (hs ++ [.step i]) = (run e {} hs).failStream e j := by
      rw [run_append, ← heq]
      rfl
    have hjobs := failStream_jobs (e := e) (j := j) b hb
    rw [count] at hd
    rw [if_pos hlt, hd] at hjobs
    have hwaits : (run e {} (hs ++ [.step i])).Waits e ((run e {} hs).now + d.millisCeil) := by
      refine waits_of_pausing (j := j) (b := ⟨b.failures + 1⟩)
        (t := ⟨(run e {} hs).now + d.millisCeil, (run e {} hs).timers⟩) hlast
        (by rw [hrun, hsession]) fun i v => ?_
      rw [hrun, hjobs]
      exact manned.become _ i v
    rw [hrun] at hwaits
    rw [heq]
    exact hwaits

/-- The bridge keeps its stream open as long as the policy allows it. -/
theorem stream_kept_open (e : Surroundings) (hs : List Happening)
    (hclose : ∀ k, .call k .close ∉ hs) :
    KeepsOpen e (run e {} hs) (news e {} hs) (accepted e {} hs) := by
  have h := tended_run (e := e) hclose
  have hn := (orderly_initial.run (e := e) hs).numbered
  have hm := joined_run (e := e) hs
  refine ⟨fun x => ready_of_heard h hn, fun a resume => opens_of_news h hn hm,
    fun a => waits_of_news hclose, fun a => givesUp_of_news h hn hm, fun a => lasts_of_open h hn hm,
    fun a => acknowledges_of_news h hn hm, fun a i => acknowledge_of_mem h hn hm, ?_, ?_⟩
  · intro i hi
    have ht := hn.task?_of_mem hi
    have hstep : (run e {} hs).step e i = (run e {} hs).stepTask e i .acknowledge := by
      simp [step, ht, readyTask]
    refine ⟨by simp [ready, ht, readyTask], by rw [hstep]; rfl, ?_⟩
    rw [hstep]
    exact mem_become.mpr (.inr ⟨rfl, _, hi⟩)
  · intro i hi
    obtain ⟨as, hsession, -⟩ := ({} : Machine).run_front e hs
    have hbalanced := Session.balanced_initial.run (n := e.reconnect.maxAttempts) as
    have hinitial : ({} : Machine).session = {} := rfl
    rw [← hinitial, ← hsession] at hbalanced
    exact step_acknowledging (hn.task?_of_mem hi) (errand_of_acknowledgment hclose hi)
      hbalanced.fresh hbalanced.bounded

theorem stream_kept_open_exhausted :
    let e : Surroundings :=
      { settings := { ship := "zod" }, reconnect := { maxAttempts := 0 }, limit := 1000
        correlate := toString }
    let hs : List Happening := [.connect, .step 0, .reached (.error (.network "down"))]
    (∀ k, .call k .close ∉ hs) ∧ news e {} hs = [.opens none] ∧
      (run e {} hs).news? e (.step 0) = some .fails ∧
      ((run e {} hs).after e (.step 0)).session.state.isClosed = true ∧
      ∀ ks, (((run e {} hs).after e (.step 0)).run e ks).openings = [none] := by
  intro e hs
  have hclose : ∀ k, .call k .close ∉ hs := by simp [hs]
  have hnews : (run e {} hs).news? e (.step 0) = some .fails := rfl
  obtain ⟨-, htorn, hopenings⟩ :=
    (stream_kept_open e hs hclose).givesUp (.step 0) hnews (Nat.not_succ_le_zero _)
  exact ⟨hclose, rfl, hnews, (Session.State.isClosed_of_tearDown? htorn).2, hopenings⟩

theorem not_waits_of_jobs (h : m.jobs = []) (due : Nat) : ¬m.Waits e due := by
  rintro ⟨j, hwaits⟩
  have hlate : due ≤ (m.run e [.passed due]).now := Nat.le_add_left due m.now
  have hgone : (m.run e [.passed due]).task? j = none := by
    change m.jobs.lookup j = none
    rw [h, List.lookup_nil]
  have hsilent : m.news e [.passed due] = [] := by simp [news, trail, news?, after, openings]
  have hnews := (hwaits [.passed due] (by simp) hsilent (.step j) _).mpr ⟨rfl, hlate, rfl⟩
  simp [news?, after, step, hgone] at hnews

/-- An acknowledgment that is behind is not sent if the session is closed by the time when its turn
comes. Here it waits for a batch that is held up, and meanwhile the stream is lost for good. The
length of the delays does not matter to it, so it is told in actions of the session. A policy whose
numbers give no second delay ends the job of the stream at the second failure: the session is open
and nothing waits to open the stream. -/
theorem stream_let_go :
    (¬∀ (n : Nat) (as : List Session.Action) (owner : Nat) (w : List Session.Errand),
      .close ∉ as → (Session.run n {} as).line = .granted ⟨owner, .acknowledgment⟩ w →
      (Session.run n {} as).state.acknowledged < (Session.run n {} as).state.received →
      (Session.run n {} as).demand? .proceed =
        some (.put [.ack (Session.run n {} as).state.received])) ∧
    let e : Surroundings :=
      { settings := { ship := "zod" }, limit := 1000, correlate := toString
        reconnect :=
          { maxAttempts := 3, baseDelay := .ofMillis 100, growth := -1.0, jitter := false } }
    let hs : List Happening := [.connect, .step 0, .reached (.error (.network "down")), .step 0,
      .passed 100, .step 0, .reached (.error (.network "down"))]
    (∀ k, .call k .close ∉ hs) ∧ (run e {} hs).news? e (.step 0) = some .fails ∧
      streak (news e {} hs) + 1 ≤ e.reconnect.maxAttempts ∧
      ((run e {} hs).after e (.step 0)).session.state.isClosed = false ∧
      ∀ due, ¬((run e {} hs).after e (.step 0)).Waits e due := by
  constructor
  · intro h
    let r : Session.Request := .unsubscribe 1
    let event (id : String) : EventStream.Event := { id := some id, data := "" }
    let as : List Session.Action :=
      [.call 0 r, .proceed, .settle (.ok ()), .awaken, .opened, .receive (event "1"),
        .call 1 r, .proceed, .receive (event "2"), .fail, .awaken, .opened, .callAcknowledge 2,
        .fail, .awaken, .fail, .settle (.ok ())]
    have hsole : (Session.run 1 {} as).line.errandsOf 2 = [⟨2, .acknowledgment⟩] := by
      decide +kernel
    obtain ⟨w, hline, -⟩ := Session.granted_of_sole hsole (by decide +kernel)
    have hput := h 1 as 2 w (by simp [as]) hline (by decide +kernel)
    revert hput
    decide +kernel
  · intro e hs
    have hgone : ((run e {} hs).after e (.step 0)).jobs.isEmpty = true := by decide +kernel
    refine ⟨by simp [hs], ?_, ?_, ?_, not_waits_of_jobs (List.isEmpty_iff.mp hgone)⟩ <;>
      decide +kernel

end Machine

end Relay

end ShipBridge
