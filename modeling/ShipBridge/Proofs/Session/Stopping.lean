import ShipBridge.Proofs.Session.Closing

/-!
# The stream after the end of a session

The signal to stop reaches a stream only if it listens. One that is being opened, is read or
pauses does so, and one that has not been started cannot be started any more; neither goes on to
open again once the session is closed. But a stream that has been started and has not yet taken
its first step does not hear the signal, and so it opens although the session is closed.
-/

namespace ShipBridge

namespace Session

/-- A session that is closed and whose stream will not be opened again. -/
structure Stopped (s : Session) : Prop where
  closed : s.state.isClosed = true
  stream : s.stop = true ∨ s.stream = .unborn ∨ s.stream = .finished

variable {n : Nat} {s : Session}

/-! ## The signal -/

theorem open?_stop (backoff : Retry.Backoff) (again : Bool) :
    (s.open? backoff again).2.stop = s.stop := by
  unfold open?
  split_ifs <;> rfl

/-- The signal is as before, or the session has just been closed and a stream that listens has been
told to stop. -/
def Signals (s t : Session) : Prop := t.stop = s.stop ∨
  (t.stop = (s.stop || s.stream.listens) ∧ s.state.isClosed = false ∧ t.state.isClosed = true)

theorem tearDown_signals (r : String) : s.Signals (s.tearDown r).2 := by
  unfold tearDown
  cases h : s.state.tearDown? r with
  | none => exact .inl rfl
  | some t => exact .inr ⟨rfl, State.isClosed_of_tearDown? h⟩

theorem retry?_signals (backoff : Retry.Backoff) : s.Signals (s.retry? n backoff).2 := by
  unfold retry? Retry.Backoff.next
  split_ifs
  · exact tearDown_signals "event stream lost"
  · exact .inl rfl

theorem act_signals (a : Action) : s.Signals (s.act n a) := by
  cases a with
  | close => exact tearDown_signals _
  | fail =>
    simp only [act, fail?]
    split
    · exact retry?_signals _
    · exact retry?_signals _
    · exact .inl rfl
  | call owner r => exact .inl (by rw [act_call_frame])
  | proceed => exact .inl (by rw [act_proceed_frame])
  | settle a => exact .inl (by rw [act_settle_frame])
  | receive e => exact .inl (by rw [act_receive_frame])
  | connect => exact .inl (by rw [act, connect_frame])
  | awaken =>
    simp only [act, awaken]
    split
    · exact .inl (open?_stop _ _)
    · exact .inl (open?_stop _ _)
    · exact .inl rfl
  | opened =>
    simp only [act, opened]
    split <;> exact .inl rfl
  | halt =>
    simp only [act, halt]
    split_ifs <;> exact .inl rfl
  | _ => exact .inl rfl

theorem act_stop (h : s.stop = true) (a : Action) : (s.act n a).stop = true := by
  rcases act_signals (n := n) (s := s) a with hs | ⟨hs, -⟩
  · exact hs.trans h
  · simp [hs, h]

theorem isClosed_of_stop (as : List Action) (h : (run n {} as).stop = true) :
    (run n {} as).state.isClosed = true := by
  refine run_induction (P := fun t => t.stop = true → t.state.isClosed = true) ?_ ?_ as h
  · intro h
    cases h
  · intro t a ht hstop
    rcases act_signals (n := n) (s := t) a with hs | ⟨-, -, hc⟩
    · exact isClosed_act (ht (hs ▸ hstop)) a
    · exact hc

/-! ## A stopped stream -/

/-- A stream that is unborn or has finished stays so in a session that is closed. -/
theorem act_stream_of_idle (hc : s.state.isClosed = true)
    (hs : s.stream = .unborn ∨ s.stream = .finished) (a : Action) :
    (s.act n a).stream = s.stream := by
  have hborn : s.stream ≠ .born ∧ ∀ b, s.stream ≠ .pausing b := by
    rcases hs with hs | hs <;> simp [hs]
  cases ha : a.isSteady with
  | true =>
    rcases act_stream (n := n) (s := s) ha with h | ⟨h, -⟩ | ⟨h | ⟨b, h⟩, -⟩
    · exact h
    · rw [State.isClosed, h] at hc
      cases hc
    · exact absurd h hborn.1
    · exact absurd h (hborn.2 b)
  | false =>
    cases a with
    | receive e => exact act_receive_stream e
    | close => exact tearDown_stream _
    | opened => rcases hs with hs | hs <;> simp [act, opened, hs]
    | fail => rcases hs with hs | hs <;> simp [act, fail?, hs]
    | halt => rcases hs with hs | hs <;> simp [act, halt, hs, Stream.listens]
    | _ => cases ha

theorem Stopped.act (h : s.Stopped) (a : Action) : (s.act n a).Stopped where
  closed := isClosed_act h.closed a
  stream := by
    rcases h.stream with hs | hs
    · exact .inl (act_stop hs a)
    · rw [act_stream_of_idle h.closed hs a]
      exact .inr hs

theorem Stopped.demand?_ne_opening (h : s.Stopped) (a : Action) (resume : Option Nat) :
    s.demand? a ≠ some (.opening resume) := by
  intro hd
  cases a with
  | awaken =>
    obtain ⟨r, hr, -⟩ := Option.map_eq_some_iff.mp hd
    rcases h.stream with hs | hs | hs
    · unfold awaken open? at hr
      simp only [hs, if_true] at hr
      split at hr <;> cases hr
    · simp [awaken, hs] at hr
    · simp [awaken, hs] at hr
  | proceed =>
    simp only [demand?] at hd
    split at hd <;> cases hd
  | close =>
    simp only [demand?] at hd
    split_ifs at hd
    cases hd
  | _ => cases hd

theorem Stopped.opening_notMem_demands (h : s.Stopped) (as : List Action) (resume : Option Nat) :
    .opening resume ∉ demands n s as := by
  intro hd
  obtain ⟨m, hm, hmd⟩ := List.mem_filterMap.mp hd
  have hstopped : m.1.Stopped := mem_trail_induction (P := Stopped) h (fun _ a h => h.act a) hm
  exact hstopped.demand?_ne_opening m.2 resume hmd

theorem act_fail_finished (ho : s.state.isClosed = false)
    (hc : (s.act n .fail).state.isClosed = true) : (s.act n .fail).stream = .finished := by
  have hretry (b : Retry.Backoff) (h : (s.retry? n b).2.state.isClosed = true) :
      (s.retry? n b).2.stream = .finished := by
    rw [retry?_state] at h
    unfold retry? Retry.Backoff.next
    split_ifs at h ⊢
    · rfl
    · rw [ho] at h
      cases h
  simp only [act, fail?] at hc ⊢
  split at hc
  · exact hretry _ hc
  · exact hretry _ hc
  · rw [ho] at hc
    cases hc

theorem act_close_stop (ho : s.state.isClosed = false) :
    (s.act n .close).stop = (s.stop || s.stream.listens) := by
  simp [act, close, tearDown, State.tearDown?, ho]

/-- An action that closes a session stops the stream unless it has just been born. -/
theorem stopped_of_closing {a : Action} (ho : s.state.isClosed = false)
    (hc : (s.act n a).state.isClosed = true) (hs : s.stream ≠ .born) : (s.act n a).Stopped := by
  refine ⟨hc, ?_⟩
  by_cases ha : a = .close
  · subst ha
    rw [act_close_stop ho, act, close, tearDown_stream]
    cases hstream : s.stream with
    | born => exact absurd hstream hs
    | unborn => exact .inr (.inl rfl)
    | finished => exact .inr (.inr rfl)
    | _ => exact .inl (by simp [Stream.listens])
  · have hf : a = .fail := by
      by_contra hf
      rw [act_isClosed_of_ne ha hf, ho] at hc
      cases hc
    subst hf
    exact .inr (.inr (act_fail_finished ho hc))

/-- A stream that has just been born does not learn that the session is closed. -/
theorem opening_of_born {a : Action} (hs : s.stream = .born) (hstop : s.stop = false)
    (ho : s.state.isClosed = false) (hc : (s.act n a).state.isClosed = true) :
    (s.act n a).demand? .awaken = some (.opening s.state.resumePoint) := by
  have ha : a = .close := by
    by_contra ha
    by_cases hf : a = .fail
    · subst hf
      simp [act, fail?, hs, ho] at hc
    · rw [act_isClosed_of_ne ha hf, ho] at hc
      cases hc
  subst ha
  have hnext : (s.act n .close).stop = false ∧ (s.act n .close).stream = .born :=
    ⟨by rw [act_close_stop ho, hstop, hs]; rfl, (tearDown_stream _).trans hs⟩
  have hresume : (s.act n .close).state.resumePoint = s.state.resumePoint :=
    act_resumePoint fun e he => by cases he
  simp [demand?, awaken, open?, hnext, hresume]

/-- After a session has been closed its stream is never opened again, whatever happens, exactly if
the stream was not waiting for its first step at that moment. -/
theorem stops_with_session (n : Nat) (before : List Action) (a : Action)
    (ho : (run n {} before).state.isClosed = false)
    (hc : (run n {} (before ++ [a])).state.isClosed = true) :
    (∀ after resume, .opening resume ∉ demands n (run n {} (before ++ [a])) after) ↔
      (run n {} before).stream ≠ .born := by
  rw [run_concat] at hc ⊢
  constructor
  · intro h hborn
    have hstop : (run n {} before).stop = false := by
      by_contra hstop
      rw [isClosed_of_stop before (by simpa using hstop)] at ho
      cases ho
    refine h [.awaken] (run n {} before).state.resumePoint ?_
    rw [demands_cons, opening_of_born hborn hstop ho hc]
    exact List.mem_cons_self
  · intro hs after resume
    exact (stopped_of_closing ho hc hs).opening_notMem_demands after resume

theorem stops_with_session_reading :
    let before : List Action := [.connect, .awaken, .opened]
    (run 3 {} before).state.isClosed = false ∧
      (run 3 {} (before ++ [.close])).state.isClosed = true ∧
      ∀ after resume, .opening resume ∉ demands 3 (run 3 {} (before ++ [.close])) after := by
  intro before
  have ho : (run 3 {} before).state.isClosed = false := rfl
  have hc : (run 3 {} (before ++ [.close])).state.isClosed = true := rfl
  exact ⟨ho, hc, (stops_with_session 3 before .close ho hc).mpr (by decide)⟩

/-- A session that is closed before its stream has taken its first step opens the stream. -/
theorem unstarted_stream_opens :
    ¬∀ (n : Nat) (before after : List Action), (run n {} before).state.isClosed = true →
      ∀ resume, .opening resume ∉ demands n (run n {} before) after := by
  intro h
  exact h 3 [.connect, .close] [.awaken] rfl none (by decide)

end Session

end ShipBridge
