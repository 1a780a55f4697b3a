import ShipBridge.Proofs.Relay.Closing
import ShipBridge.Proofs.Relay.StreamNews

/-!
# The invariant of the stream

One job tends the stream: it opens it, reads what it brings, and after a failure waits and opens it
once more, or ends the session if there have been too many. As long as nobody else closes the
session, the stage of the stream follows from the news, the session is open until the stream has
finished, and no attempt to open the stream has started from beyond the last event taken in. The
steps of that one job are told apart in `Look`; they keep this, and nothing else disturbs it.
-/

namespace ShipBridge

namespace Session

def Stream.backoff? : Stream → Option Retry.Backoff
  | .opening _ backoff _ => some backoff
  | .reading => some {}
  | _ => none

variable {n : Nat} {s : Session} {b : Retry.Backoff}

theorem Stream.ne_finished_of_backoff? {x : Stream} (hb : x.backoff? = some b) : x ≠ .finished := by
  rintro rfl
  cases hb

theorem fail?_of_backoff? (hb : s.stream.backoff? = some b) : s.fail? n = s.retry? n b := by
  unfold fail?
  split <;> simp_all [Stream.backoff?]

theorem fail?_of_lt (hb : s.stream.backoff? = some b) (h : b.failures < n) :
    s.fail? n = (some b.failures, { s with stream := .pausing ⟨b.failures + 1⟩ }) := by
  rw [fail?_of_backoff? hb, retry?, Retry.Backoff.next, if_neg (Nat.not_le.mpr h)]

theorem fail?_of_le (hb : s.stream.backoff? = some b) (h : n ≤ b.failures) :
    s.fail? n = (none, { (s.tearDown "event stream lost").2 with stream := .finished }) := by
  rw [fail?_of_backoff? hb, retry?, Retry.Backoff.next, if_pos h]

theorem Tallied.resumePoint {ks : List Nat} (h : s.Tallied ks) :
    s.state.resumePoint = ks.getLast? := by
  unfold State.resumePoint
  split_ifs with hany
  · cases ks using List.reverseRecOn with
    | nil => exact absurd (h.any.mpr rfl) (by simp [hany])
    | append_singleton ks k _ => simp [h.received]
  · have hnil : ks = [] := h.any.mp (by simpa using hany)
    rw [hnil]
    rfl

end Session

namespace Relay

namespace Machine

variable {e : Surroundings} {m m' : Machine} {past : List News} {taken : List Nat} {i j : Nat}
  {u v : Option Timer} {n : Nat}

/-! ## What holds at every moment -/

/-- A stream that may fail is looked after, and its failures have been counted. -/
theorem Stage.of_backoff? (h : Stage n m past) {b : Retry.Backoff}
    (hb : m.session.stream.backoff? = some b) :
    ∃ j, m.Manned j none ∧ streak past = b.failures ∧ b.failures ≤ n := by
  cases h with
  | opening resume backoff again stream j manned count allowed failed =>
    rw [stream] at hb
    obtain rfl := Option.some.inj hb
    exact ⟨j, manned, count, allowed⟩
  | reading stream j manned count =>
    rw [stream] at hb
    obtain rfl := Option.some.inj hb
    exact ⟨j, manned, count, Nat.zero_le n⟩
  | _ => simp_all [Session.Stream.backoff?]

theorem resume_le_self (r : Option Nat) : r ≤ r := by
  cases r with
  | none => exact Option.none_le
  | some k => exact Option.some_le_some.mpr (Nat.le_refl k)

/-- What holds as long as nobody closes the session: the stage follows from the news, the session is
closed just when the stream has finished, and the stream has been opened from nowhere beyond the
last event taken in. -/
structure Tended (n : Nat) (m : Machine) (past : List News) (taken : List Nat) : Prop where
  stage : Stage n m past
  unclosed : ∀ i k, (i, .start k .close) ∉ m.jobs
  stop : m.session.stop = true → m.session.stream = .finished
  closed : m.session.state.isClosed = true ↔ m.session.stream = .finished
  tallied : m.session.Tallied taken
  passed : ∀ r ∈ m.openings, r ≤ m.session.state.resumePoint

theorem Tended.apart (h : Tended n m past taken) (hm : m.session.Joined) (ha : Apart m m') :
    Tended n m' past taken := by
  -- either way the counts stay, and so does the signal
  have hsame : m'.session.stop = m.session.stop ∧
      m'.session.state.receivedAny = m.session.state.receivedAny ∧
      m'.session.state.received = m.session.state.received := by
    rcases ha.streams with ⟨hh, -⟩ | ⟨-, hh, -⟩
    · exact ⟨congrArg Session.Heading.stop hh, congrArg Session.Heading.receivedAny hh,
        congrArg Session.Heading.received hh⟩
    · exact ⟨congrArg Session.Heading.stop hh, congrArg Session.Heading.receivedAny hh,
        congrArg Session.Heading.received hh⟩
  obtain ⟨hstop, hany, hreceived⟩ := hsame
  have hresume : m'.session.state.resumePoint = m.session.state.resumePoint := by
    rw [Session.State.resumePoint, hany, hreceived]
    rfl
  refine ⟨h.stage.apart hm ha, fun i k hmem => h.unclosed i k (ha.closing i k hmem), ?_, ?_,
    ⟨h.tallied.ascending, hreceived.trans h.tallied.received, by rw [hany, h.tallied.any]⟩, ?_⟩
  · rw [hstop]
    intro hs
    rcases ha.streams with ⟨hh, -⟩ | ⟨hd, -⟩
    · exact (congrArg Session.Heading.stream hh).trans (h.stop hs)
    · have hu := hm hd
      rw [h.stop hs] at hu
      cases hu
  · rcases ha.streams with ⟨hh, -⟩ | ⟨hd, hh, -⟩
    · have hc : m'.session.state.connection = m.session.state.connection :=
        congrArg Session.Heading.connection hh
      have hs : m'.session.stream = m.session.stream := congrArg Session.Heading.stream hh
      rw [hs, ← h.closed, Session.State.isClosed, hc]
      rfl
    · have hc : m'.session.state.connection = .connected :=
        congrArg Session.Heading.connection hh
      have hs : m'.session.stream = .born := congrArg Session.Heading.stream hh
      simp [Session.State.isClosed, hc, hs]
  · rw [ha.openings, hresume]
    exact h.passed

/-- The stream moves on, and the rest of the session is left alone. -/
theorem Tended.of_stream (h : Tended n m past taken) {past' : List News} (hstage : Stage n m' past')
    {x : Session.Stream} (hsession : m'.session = { m.session with stream := x })
    (hx : x ≠ .finished) (hm : m.session.stream ≠ .finished)
    (hjobs : ∀ i k, (i, .start k .close) ∈ m'.jobs → (i, .start k .close) ∈ m.jobs)
    (hpassed : ∀ r ∈ m'.openings, r ∈ m.openings ∨ r = m.session.state.resumePoint) :
    Tended n m' past' taken where
  stage := hstage
  unclosed i k hmem := h.unclosed i k (hjobs i k hmem)
  stop hs := by
    rw [hsession] at hs
    exact absurd (h.stop hs) hm
  closed := by
    rw [hsession]
    exact iff_of_false (fun hc => hm (h.closed.mp hc)) hx
  tallied := by
    rw [hsession]
    exact ⟨h.tallied.ascending, h.tallied.received, h.tallied.any⟩
  passed r hr := by
    rw [hsession]
    rcases hpassed r hr with hr | rfl
    · exact h.passed r hr
    · exact resume_le_self _

/-! ## The steps of the stream's job -/

theorem step_stream (ht : m.task? j = some (.stream u)) :
    m.step e j = if m.streamReady u then m.stepStream e j else m := by
  simp only [step, ht, readyTask, stepTask]
  rfl

theorem accepted?_of_not_reading (hs : m.session.stream ≠ .reading) (h : Happening) :
    m.accepted? h = none := by
  have hnone (event : EventStream.Event) : m.session.accepted? (.receive event) = none := by
    simp [Session.accepted?, Session.takes, hs]
  unfold accepted?
  split
  · split
    · exact hnone _
    · rfl
  · rfl

/-- A step of the job that looks after the stream. -/
inductive Look (e : Surroundings) (j : Nat) (m m' : Machine) (past : List News) : Prop where
  | waits (news : m.news? e (.step j) = none) (accepted : m.accepted? (.step j) = none)
      (eq : m' = m)
  | opens (u : Option Timer) (b : Retry.Backoff) (again : Bool)
      (news : m.news? e (.step j) = some (.opens m.session.state.resumePoint))
      (accepted : m.accepted? (.step j) = none) (silent : m.heard? = none) (manned : m.Manned j u)
      (unfinished : m.session.stream ≠ .finished) (count : streak past = b.failures)
      (allowed : b.failures ≤ e.reconnect.maxAttempts) (failed : again = true ↔ .fails ∈ past)
      (eq : m' = ({ m with
        session := { m.session with stream := .opening m.session.state.resumePoint b again }
        reached := none }.emit (.opening m.session.state.resumePoint)).become j (.stream none))
  | reads (event : EventStream.Event) (rest : List EventStream.Item)
      (stream : m.session.stream = .reading) (news : m.news? e (.step j) = none)
      (accepted : m.accepted? (.step j) = m.session.accepted? (.receive event))
      (eq : m' = { m with items := rest, session := m.session.receive event })
  | succeeds (again : Bool) (news : m.news? e (.step j) = some .succeeds)
      (accepted : m.accepted? (.step j) = none) (manned : m.Manned j none)
      (unfinished : m.session.stream ≠ .finished) (failed : again = true ↔ .fails ∈ past)
      (session : m'.session = { m.session with stream := .reading })
      (openings : m'.openings = m.openings)
      (jobs : m'.jobs = m.jobs ++ if again then [(m.born, .acknowledge)] else [])
  | fails (b : Retry.Backoff) (news : m.news? e (.step j) = some .fails)
      (accepted : m.accepted? (.step j) = none) (backoff : m.session.stream.backoff? = some b)
      (manned : m.Manned j none) (count : streak past = b.failures)
      (allowed : b.failures ≤ e.reconnect.maxAttempts) (eq : m' = m.failStream e j)

theorem look_awaken (ht : m.task? j = some (.stream u)) (manned : m.Manned j u)
    (hready : m.streamReady u = true) (hstep : m.stepStream e j = m.awakenStream j)
    (b : Retry.Backoff) (again : Bool)
    (hawaken : m.session.awaken = (some m.session.state.resumePoint,
      { m.session with stream := .opening m.session.state.resumePoint b again }))
    (hs : m.session.stream = .born ∨ ∃ c, m.session.stream = .pausing c)
    (count : streak past = b.failures) (allowed : b.failures ≤ e.reconnect.maxAttempts)
    (failed : again = true ↔ .fails ∈ past) :
    m.news? e (.step j) = some (.opens m.session.state.resumePoint) ∧
      Look e j m (m.step e j) past := by
  have heq : m.step e j = ({ m with
      session := { m.session with stream := .opening m.session.state.resumePoint b again }
      reached := none }.emit (.opening m.session.state.resumePoint)).become j (.stream none) := by
    rw [step_stream ht, if_pos hready, hstep, awakenStream, hawaken]
  have hnews : m.news? e (.step j) = some (.opens m.session.state.resumePoint) := by
    refine news?_opens ?_
    rw [after, heq]
    rfl
  refine ⟨hnews, .opens u b again hnews (accepted?_of_not_reading ?_ _) ?_ manned ?_ count allowed
    failed heq⟩
  all_goals rcases hs with hs | ⟨c, hs⟩ <;> simp [heard?, hs]

theorem heard?_fails (h : m.heard? = some .fails)
    (hstop : (m.session.stop && m.session.stream.listens) = false) :
    m.stepStream e j = m.failStream e j ∧ ∃ b, m.session.stream.backoff? = some b := by
  unfold heard? at h
  unfold stepStream
  rw [hstop, if_neg Bool.false_ne_true]
  split at h
  · next resume b again hs =>
    simp only [hs]
    obtain ⟨a, ha, hf⟩ := Option.map_eq_some_iff.mp h
    cases a with
    | ok => cases hf
    | error f =>
      rw [ha]
      exact ⟨rfl, b, rfl⟩
  · next hs =>
    refine ⟨?_, {}, by rw [hs]; rfl⟩
    cases hi : m.items with
    | nil =>
      rw [hi] at h
      have hended : m.streamEnded = true := by simpa using h
      simp only [hs, hended, if_true]
    | cons item rest =>
      rw [hi] at h
      cases item with
      | ok event => cases h
      | error f => simp only [hs]
  · cases h

theorem streamReady_of_heard {x : News} (h : m.heard? = some x) : m.streamReady none = true := by
  unfold heard? at h
  unfold streamReady
  split at h
  · next hs =>
    obtain ⟨a, ha, -⟩ := Option.map_eq_some_iff.mp h
    simp [hs, ha]
  · next hs =>
    rw [hs]
    split at h
    · cases h
    · next hi => simp [hi]
    · next hi =>
      split_ifs at h with he
      simp [he]
  · cases h

theorem stop_listens (h : Tended n m past taken) :
    (m.session.stop && m.session.stream.listens) = false := by
  cases hstop : m.session.stop with
  | false => rfl
  | true =>
    rw [h.stop hstop]
    rfl

theorem failStream_openings : (m.failStream e j).openings = m.openings := by
  refine openings_of_front (d := []) ?_ nofun
  exact congrArg Session.Front.demanded (m.failStream_front e j)

theorem look_fails (h : Tended e.reconnect.maxAttempts m past taken)
    (ht : m.task? j = some (.stream none)) (hh : m.heard? = some .fails)
    (hmute : m.accepted? (.step j) = none) :
    Look e j m (m.step e j) past := by
  obtain ⟨heq, b, hb⟩ := heard?_fails (e := e) (j := j) hh (stop_listens h)
  obtain ⟨i, manned, count, allowed⟩ := h.stage.of_backoff? hb
  obtain ⟨rfl, -⟩ := (manned j none).mp (mem_of_task? ht)
  have hstep : m.step e j = m.failStream e j := by
    rw [step_stream ht, if_pos (streamReady_of_heard hh), heq]
  refine .fails b ?_ hmute hb manned count allowed hstep
  rw [news?_step ht (by rw [hstep, failStream_openings]), hh]

theorem look_opening (h : Tended e.reconnect.maxAttempts m past taken)
    {resume : Option Nat} {b : Retry.Backoff} {again : Bool}
    (hs : m.session.stream = .opening resume b again) (manned : m.Manned j none)
    (failed : again = true ↔ .fails ∈ past) (ht : m.task? j = some (.stream none)) :
    Look e j m (m.step e j) past := by
  have hmute : m.accepted? (.step j) = none := accepted?_of_not_reading (by simp [hs]) _
  cases hr : m.reached with
  | none =>
    have hidle : m.step e j = m := by
      have hstop := stop_listens h
      rw [hs] at hstop
      simp [step_stream ht, streamReady, hstop, hs, hr]
    refine .waits ?_ hmute hidle
    rw [news?_step ht (by rw [hidle]), heard?, hs, hr]
    rfl
  | some a =>
    cases a with
    | error f => exact look_fails h ht (by rw [heard?, hs, hr]; rfl) hmute
    | ok =>
      have hheard : m.heard? = some .succeeds := by rw [heard?, hs, hr]; rfl
      have hstep : m.step e j =
          let w : Machine := { m with
            session := { m.session with stream := .reading }
            reached := none
            items := []
            streamEnded := false }
          if again then w.spawn .acknowledge else w := by
        rw [step_stream ht, if_pos (streamReady_of_heard hheard), stepStream, stop_listens h,
          if_neg Bool.false_ne_true]
        simp only [hs, hr, Session.opened]
      have hopenings : (m.step e j).openings = m.openings := by
        rw [hstep]
        dsimp only
        split_ifs <;> rfl
      refine .succeeds again ?_ hmute manned (by simp [hs]) failed ?_ hopenings ?_
      · rw [news?_step ht hopenings, hheard]
      · rw [hstep]
        dsimp only
        split_ifs <;> rfl
      · rw [hstep]
        cases again <;> simp [Machine.spawn]

theorem look_reading (h : Tended e.reconnect.maxAttempts m past taken)
    (hs : m.session.stream = .reading) (ht : m.task? j = some (.stream none)) :
    Look e j m (m.step e j) past := by
  have hnot := stop_listens h
  have hsilent (hh : m.heard? = none) (hstep : (m.step e j).openings = m.openings) :
      m.news? e (.step j) = none := by rw [news?_step ht hstep, hh]
  cases hi : m.items with
  | cons item rest =>
    cases item with
    | ok event =>
      have hready : m.streamReady none = true := by simp [streamReady, hs, hi]
      have hstep : m.step e j = { m with
          items := rest, session := m.session.receive event } := by
        rw [step_stream ht, if_pos hready, stepStream, hnot, if_neg Bool.false_ne_true]
        simp only [hs, hi]
      refine .reads event rest hs (hsilent ?_ ?_) ?_ hstep
      · rw [heard?, hs, hi]
      · rw [hstep]
        rfl
      · simp only [accepted?, ht, hi]
    | error f =>
      exact look_fails h ht (by rw [heard?, hs, hi]) (by simp only [accepted?, ht, hi])
  | nil =>
    have hmute : m.accepted? (.step j) = none := by simp only [accepted?, ht, hi]
    cases he : m.streamEnded with
    | true => exact look_fails h ht (by simp [heard?, hs, hi, he]) hmute
    | false =>
      have hidle : m.step e j = m := by
        rw [hs] at hnot
        simp [step_stream ht, streamReady, hnot, hs, hi, he]
      exact .waits (hsilent (by simp [heard?, hs, hi, he]) (by rw [hidle])) hmute hidle

theorem Tended.stop_eq_false (h : Tended n m past taken) (hs : m.session.stream ≠ .finished) :
    m.session.stop = false := by
  by_contra hstop
  exact hs (h.stop (by simpa using hstop))

theorem look_pausing (h : Tended e.reconnect.maxAttempts m past taken) {b : Retry.Backoff}
    (hs : m.session.stream = .pausing b) {t : Timer} (manned : m.Manned j (some t))
    (count : streak past = b.failures) (allowed : b.failures ≤ e.reconnect.maxAttempts)
    (failed : .fails ∈ past) (ht : m.task? j = some (.stream (some t))) :
    if t.due ≤ m.now then
      m.news? e (.step j) = some (.opens m.session.state.resumePoint) ∧
        Look e j m (m.step e j) past
    else m.step e j = m ∧ m.news? e (.step j) = none ∧ m.accepted? (.step j) = none := by
  have hnot := stop_listens h
  split_ifs with hdue
  · refine look_awaken ht manned ?_ ?_ b true ?_ (.inr ⟨b, hs⟩) count allowed
      (iff_of_true rfl failed)
    · simp [streamReady, hs, isDue, hdue]
    · rw [stepStream, hnot, if_neg Bool.false_ne_true, hs]
    · rw [Session.awaken, hs]
      simp [Session.open?, h.stop_eq_false (by simp [hs])]
  · rw [hs] at hnot
    have hidle : m.step e j = m := by
      simp [step_stream ht, streamReady, hnot, hs, isDue, hdue]
    refine ⟨hidle, ?_, accepted?_of_not_reading (by simp [hs]) _⟩
    rw [news?_step ht (by rw [hidle]), heard?, hs]

theorem look (h : Tended e.reconnect.maxAttempts m past taken)
    (ht : m.task? j = some (.stream u)) : Look e j m (m.step e j) past := by
  have hmem := mem_of_task? ht
  cases h.stage with
  | unborn stream idle silent => exact absurd hmem (idle j u)
  | stuck backoff stream idle => exact absurd hmem (idle j u)
  | finished stream idle => exact absurd hmem (idle j u)
  | born stream i manned silent =>
    obtain ⟨rfl, rfl⟩ := (manned j u).mp hmem
    refine (look_awaken ht manned ?_ ?_ {} false ?_ (.inl stream) (by rw [silent]; rfl)
      (Nat.zero_le _) (by simp [silent])).2
    · simp [streamReady, stream]
    · rw [stepStream, stop_listens h, if_neg Bool.false_ne_true, stream]
    · rw [Session.awaken, stream]
      simp [Session.open?, h.stop_eq_false (by simp [stream])]
  | opening resume backoff again stream i manned count allowed failed =>
    obtain ⟨rfl, rfl⟩ := (manned j u).mp hmem
    exact look_opening h stream manned failed ht
  | reading stream i manned count =>
    obtain ⟨rfl, rfl⟩ := (manned j u).mp hmem
    exact look_reading h stream ht
  | pausing backoff stream i t manned count allowed failed =>
    obtain ⟨rfl, rfl⟩ := (manned j u).mp hmem
    have hlook := look_pausing h stream manned count allowed failed ht
    split_ifs at hlook
    · exact hlook.2
    · exact .waits hlook.2.1 hlook.2.2 hlook.1

/-! ## What a step of the stream's job keeps -/

theorem unclosed_become {k : Nat} (h : (i, .start k .close) ∈ (m.become j (.stream v)).jobs) :
    (i, .start k .close) ∈ m.jobs := by
  rcases mem_become.mp h with ⟨h, -⟩ | ⟨h, -⟩
  · exact h
  · cases (Prod.mk.inj h).2

/-- The job of a stream that has failed waits for the delay, or there is nothing left to do. -/
theorem failStream_jobs (b : Retry.Backoff) (hb : m.session.stream.backoff? = some b) :
    (m.failStream e j).jobs =
      if b.failures < e.reconnect.maxAttempts then
        match e.reconnect.drawn? b.failures (e.factor m.timers) with
        | some d => (m.become j (.stream (some ⟨m.now + d.millisCeil, m.timers⟩))).jobs
        | none => (m.dismiss j).jobs
      else (m.dismiss j).jobs := by
  split_ifs with hlt
  · rw [failStream, Session.fail?_of_lt hb hlt]
    simp only [pauseStream]
    cases e.reconnect.drawn? b.failures (e.factor m.timers) <;> rfl
  · rw [failStream, Session.fail?_of_le hb (Nat.not_lt.mp hlt)]
    rfl

theorem failStream_session_of_lt {b : Retry.Backoff} (hb : m.session.stream.backoff? = some b)
    (hlt : b.failures < e.reconnect.maxAttempts) : (m.failStream e j).session =
      { m.session with stream := .pausing ⟨b.failures + 1⟩ } := by
  rw [failStream_session, Session.act, Session.fail?_of_lt hb hlt]

theorem failStream_session_of_le {b : Retry.Backoff} (hb : m.session.stream.backoff? = some b)
    (hle : e.reconnect.maxAttempts ≤ b.failures) : (m.failStream e j).session =
      { (m.session.tearDown "event stream lost").2 with stream := .finished } := by
  rw [failStream_session, Session.act, Session.fail?_of_le hb hle]

theorem Stage.of_retry {b : Retry.Backoff} (hb : m.session.stream.backoff? = some b)
    (manned : m.Manned j none) (count : streak past = b.failures)
    (hlt : b.failures < e.reconnect.maxAttempts) :
    Stage e.reconnect.maxAttempts (m.failStream e j) (past ++ [.fails]) := by
  have hs : (m.failStream e j).session.stream = .pausing ⟨b.failures + 1⟩ := by
    rw [failStream_session_of_lt hb hlt]
  have hjobs := failStream_jobs (e := e) (j := j) b hb
  rw [if_pos hlt] at hjobs
  cases hd : e.reconnect.drawn? b.failures (e.factor m.timers) with
  | none =>
    rw [hd] at hjobs
    refine .stuck _ hs fun i v hmem => ?_
    rw [hjobs] at hmem
    exact manned.dismiss i v hmem
  | some d =>
    rw [hd] at hjobs
    refine .pausing _ hs j ⟨m.now + d.millisCeil, m.timers⟩ (fun i v => ?_)
      (by rw [streak_fails, count]) hlt (by simp)
    rw [hjobs]
    exact manned.become _ i v

theorem Tended.of_retry (h : Tended e.reconnect.maxAttempts m past taken) {b : Retry.Backoff}
    (hb : m.session.stream.backoff? = some b) (manned : m.Manned j none)
    (count : streak past = b.failures) (hlt : b.failures < e.reconnect.maxAttempts) :
    Tended e.reconnect.maxAttempts (m.failStream e j) (past ++ [.fails]) taken := by
  refine h.of_stream (.of_retry hb manned count hlt) (failStream_session_of_lt hb hlt) nofun
    (Session.Stream.ne_finished_of_backoff? hb) (fun i k hmem => ?_)
    fun r hr => .inl (failStream_openings ▸ hr)
  rw [failStream_jobs b hb, if_pos hlt] at hmem
  split at hmem
  · exact unclosed_become hmem
  · exact (mem_dismiss.mp hmem).1

theorem Tended.isClosed_of_backoff? (h : Tended n m past taken) {b : Retry.Backoff}
    (hb : m.session.stream.backoff? = some b) : m.session.state.isClosed = false := by
  rw [← Bool.not_eq_true, h.closed]
  exact Session.Stream.ne_finished_of_backoff? hb

theorem failStream_state_of_le (h : Tended n m past taken) {b : Retry.Backoff}
    (hb : m.session.stream.backoff? = some b) (hle : e.reconnect.maxAttempts ≤ b.failures) :
    m.session.state.tearDown? "event stream lost" = some (m.failStream e j).session.state := by
  have hopen := h.isClosed_of_backoff? hb
  rw [failStream_session_of_le hb hle, Session.tearDown_state]
  simp [Session.State.tearDown?, hopen]

theorem Tended.of_loss (h : Tended e.reconnect.maxAttempts m past taken) {b : Retry.Backoff}
    (hb : m.session.stream.backoff? = some b) (manned : m.Manned j none)
    (hle : e.reconnect.maxAttempts ≤ b.failures) (past' : List News) :
    Tended e.reconnect.maxAttempts (m.failStream e j) past' taken := by
  have hs : (m.failStream e j).session.stream = .finished := by
    rw [failStream_session_of_le hb hle]
  have hjobs : (m.failStream e j).jobs = (m.dismiss j).jobs := by
    rw [failStream_jobs b hb, if_neg (Nat.not_lt.mpr hle)]
  have hsession := m.failStream_session e j
  refine ⟨.finished hs fun i v hmem => ?_, fun i k hmem => ?_, fun _ => hs, ?_, ?_, ?_⟩
  · rw [hjobs] at hmem
    exact manned.dismiss i v hmem
  · rw [hjobs] at hmem
    exact h.unclosed i k (mem_dismiss.mp hmem).1
  · exact iff_of_true (Session.State.isClosed_of_tearDown? (failStream_state_of_le h hb hle)).2 hs
  · have ht := h.tallied.act (n := e.reconnect.maxAttempts) .fail
    rw [← hsession] at ht
    have hnone : m.session.accepted? .fail = none := rfl
    rwa [hnone, Option.toList_none, List.append_nil] at ht
  · rw [failStream_openings, hsession, Session.act_resumePoint (a := .fail) nofun]
    exact h.passed

/-- An event that is read moves the point to resume from, if it moves anything. -/
theorem Tended.of_event (h : Tended n m past taken) (event : EventStream.Event)
    (rest : List EventStream.Item) :
    Tended n { m with items := rest, session := m.session.receive event } past
      (taken ++ (m.session.accepted? (.receive event)).toList) := by
  have hact : m.session.receive event = m.session.act n (.receive event) := rfl
  have hs : (m.session.receive event).stream = m.session.stream := by
    rw [hact, Session.act_receive_stream]
  have htallied := h.tallied.act (n := n) (.receive event)
  refine ⟨h.stage.congr hs fun i u => .rfl, h.unclosed, ?_, ?_, htallied, ?_⟩
  · dsimp only
    rw [hs, hact, Session.act_receive_frame]
    exact h.stop
  · dsimp only
    rw [hs, ← h.closed, hact, Session.act_isClosed_of_ne (a := .receive event) nofun nofun]
  · intro r hr
    have hr' := h.passed r hr
    dsimp only
    rw [h.tallied.resumePoint] at hr'
    rw [hact, htallied.resumePoint]
    cases hk : m.session.accepted? (.receive event) with
    | none => simpa [hk] using hr'
    | some k =>
      rw [Option.toList_some, List.getLast?_concat]
      cases r with
      | none => exact Option.none_le
      | some l =>
        obtain ⟨last, hlast⟩ : ∃ last, taken.getLast? = some last := by
          cases ht : taken.getLast? with
          | none => simp [ht] at hr'
          | some last => exact ⟨last, rfl⟩
        rw [hlast] at hr'
        have hle : l ≤ last := Option.some_le_some.mp hr'
        have hlt : last < k := by
          have hasc := htallied.ascending
          rw [hk, Option.toList_some, List.pairwise_append] at hasc
          exact hasc.2.2 last (List.mem_of_getLast? hlast) k (List.mem_singleton_self k)
        exact Option.some_le_some.mpr (Nat.le_of_lt (Nat.lt_of_le_of_lt hle hlt))

theorem Tended.look (h : Tended e.reconnect.maxAttempts m past taken)
    (hl : Look e j m m' past) :
    Tended e.reconnect.maxAttempts m' (past ++ (m.news? e (.step j)).toList)
      (taken ++ (m.accepted? (.step j)).toList) := by
  cases hl with
  | waits news accepted eq =>
    rw [news, accepted, eq]
    simpa using h
  | opens w b again news accepted silent manned unfinished count allowed failed eq =>
    rw [news, accepted, Option.toList_none, List.append_nil]
    have hmanned : m'.Manned j none := by
      rw [eq]
      exact Manned.become (m := { m with
        session := { m.session with stream := .opening m.session.state.resumePoint b again }
        reached := none }.emit (.opening m.session.state.resumePoint)) manned none
    refine h.of_stream (.opening _ b again (by rw [eq]; rfl) j hmanned ?_ allowed ?_)
      (x := .opening m.session.state.resumePoint b again) (by rw [eq]; rfl) nofun unfinished
      (fun i k hmem => ?_) fun r hr => ?_
    · rw [Option.toList_some, streak_opens, count]
    · simp [failed]
    · rw [eq] at hmem
      exact unclosed_become hmem
    · rw [eq] at hr
      exact (List.mem_cons.mp hr).symm
  | reads event rest stream news accepted eq =>
    rw [news, accepted, eq, Option.toList_none, List.append_nil]
    exact h.of_event event rest
  | succeeds again news accepted manned unfinished failed session openings jobs =>
    rw [news, accepted, Option.toList_none, List.append_nil]
    have hmanned : m'.Manned j none := manned.append (by cases again <;> simp) jobs
    refine h.of_stream (.reading (by rw [session]) j hmanned ?_) session nofun unfinished
      (fun i k hmem => ?_) fun r hr => .inl (openings ▸ hr)
    · rw [Option.toList_some, streak_succeeds]
    · rw [jobs] at hmem
      cases again <;> simpa using hmem
  | fails b news accepted backoff manned count allowed eq =>
    rw [news, accepted, eq, Option.toList_none, List.append_nil]
    by_cases hlt : b.failures < e.reconnect.maxAttempts
    · exact h.of_retry backoff manned count hlt
    · exact h.of_loss backoff manned (Nat.not_lt.mp hlt) _

/-! ## Runs -/

theorem joined_run (hs : List Happening) : (run e {} hs).session.Joined := by
  obtain ⟨as, hsession, -⟩ := ({} : Machine).run_front e hs
  rw [hsession]
  exact Session.joined_run as

/-- A happening is a step of the stream's own job, or happens without it. -/
theorem after_cases (h : Tended e.reconnect.maxAttempts m past taken) (hn : m.Numbered)
    (hm : m.session.Joined) {a : Happening} (ha : ∀ k, a ≠ .call k .close) :
    (∃ j u, a = .step j ∧ m.task? j = some (.stream u) ∧ Look e j m (m.after e a) past) ∨
      (Apart m (m.after e a) ∧ m.news? e a = none ∧ m.accepted? a = none) := by
  by_cases hstep : ∃ j u, a = .step j ∧ m.task? j = some (.stream u)
  · obtain ⟨j, u, rfl, ht⟩ := hstep
    exact .inl ⟨j, u, rfl, ht, look h ht⟩
  · have hother (j : Nat) (u : Option Timer) (hj : a = .step j) : m.task? j ≠ some (.stream u) :=
      fun ht => hstep ⟨j, u, hj, ht⟩
    have hapart : Apart m (m.after e a) := after_apart hn hm h.unclosed ha hother
    exact .inr ⟨hapart, news?_apart hapart hother, accepted?_apart hother⟩

theorem Tended.after (h : Tended e.reconnect.maxAttempts m past taken) (hn : m.Numbered)
    (hm : m.session.Joined) {a : Happening} (ha : ∀ k, a ≠ .call k .close) :
    Tended e.reconnect.maxAttempts (m.after e a) (past ++ (m.news? e a).toList)
      (taken ++ (m.accepted? a).toList) := by
  rcases after_cases h hn hm ha with ⟨j, u, rfl, -, hl⟩ | ⟨hapart, hnews, haccepted⟩
  · exact h.look hl
  · rw [hnews, haccepted]
    simpa using h.apart hm hapart

theorem tended_initial : Tended n {} [] [] where
  stage := .unborn rfl (fun _ _ h => by cases h) rfl
  unclosed _ _ h := by cases h
  stop h := by cases h
  closed := by decide
  tallied := Session.tallied_initial
  passed _ h := by cases h

/-- Nobody closes the session in a run if nobody has done so before its last happening or does so
then. -/
theorem uncalled_concat {hs : List Happening} {a : Happening} :
    (∀ k, .call k .close ∉ hs ++ [a]) ↔
      (∀ k, .call k .close ∉ hs) ∧ ∀ k, a ≠ .call k .close := by
  simp [forall_and, eq_comm]

theorem tended_run {hs : List Happening} (hclose : ∀ k, .call k .close ∉ hs) :
    Tended e.reconnect.maxAttempts (run e {} hs) (news e {} hs) (accepted e {} hs) := by
  -- from the right end, since the stage is told by all the news before
  induction hs using List.reverseRecOn with
  | nil => exact tended_initial
  | append_singleton hs a ih =>
    obtain ⟨hbefore, ha⟩ := uncalled_concat.mp hclose
    have h := (ih hbefore).after (orderly_initial.run hs).numbered (joined_run hs) ha
    rw [← news_singleton, ← accepted_singleton, ← news_append, ← accepted_append] at h
    rw [run_append]
    exact h

/-- News comes with a step of the stream's own job. -/
theorem look_of_news (h : Tended e.reconnect.maxAttempts m past taken) (hn : m.Numbered)
    (hm : m.session.Joined) {a : Happening} {x : News} (hx : m.news? e a = some x) :
    ∃ j, a = .step j ∧ Look e j m (m.after e a) past := by
  have ha (k : Nat) : a ≠ .call k .close := by
    rintro rfl
    have hsame : (m.after e (.call k .close)).openings = m.openings := rfl
    unfold news? at hx
    rw [hsame, if_neg (Nat.lt_irrefl _)] at hx
    cases hx
  rcases after_cases h hn hm ha with ⟨j, u, heq, -, hl⟩ | ⟨-, hnone, -⟩
  · exact ⟨j, heq, hl⟩
  · rw [hnone] at hx
    cases hx

end Machine

end Relay

end ShipBridge
