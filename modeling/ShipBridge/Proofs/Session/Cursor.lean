import ShipBridge.Proofs.Session.Run

/-!
# The stream of a session

Only an event moves the point to resume from, and only the stream's own actions make the stream
read or stop it from reading. A stream that is being opened was asked to resume from the point
that the session has reached.
-/

namespace ShipBridge

namespace Session

/-- Actions that neither belong to the connection of the stream nor end the session. -/
def Action.isSteady : Action → Bool
  | .opened | .fail | .receive _ | .halt | .close => false
  | _ => true

variable {n : Nat} {s : Session}

/-! ## The point to resume from -/

theorem act_resumePoint {a : Action} (h : ∀ e, a ≠ .receive e) :
    (s.act n a).state.resumePoint = s.state.resumePoint := by
  simp only [State.resumePoint, (act_keeps a).received h, (act_keeps a).receivedAny h]

/-- An event is no replay if its number lies above the point to resume from. -/
theorem State.admits_eq (s : State) {e : EventStream.Event} {k : Nat} (hk : e.number? = some k) :
    s.admits e = s.resumePoint.all (· < k) := by
  rw [Bool.eq_iff_iff]
  unfold State.admits State.resumePoint
  cases s.receivedAny <;> simp [hk]

theorem State.noted_resumePoint (s : State) {e : EventStream.Event} {k : Nat}
    (hk : e.number? = some k) : (s.noted e).resumePoint = some k := by
  simp [State.noted, State.resumePoint, hk]

/-- An event that is taken in becomes the point to resume from. -/
theorem act_receive_resumePoint {e : EventStream.Event} {k : Nat} (hk : e.number? = some k)
    (h : s.takes e = true) : (s.act n (.receive e)).state.resumePoint = some k := by
  rw [act_receive_eq, if_pos h]
  exact s.state.noted_resumePoint hk

theorem act_receive_stream (e : EventStream.Event) :
    (s.act n (.receive e)).stream = s.stream := by rw [act_receive_eq]

/-! ## Reading and opening -/

theorem open?_stream (backoff : Retry.Backoff) (again : Bool) :
    (s.open? backoff again).2.stream = .finished ∨
      ∃ b g, (s.open? backoff again).2.stream = .opening s.state.resumePoint b g := by
  unfold open?
  split_ifs
  · exact .inl rfl
  · exact .inr ⟨backoff, again, rfl⟩

/-- An action that is not the stream's own leaves the stream alone, unless it starts the stream or
lets it go on to open. -/
theorem act_stream {a : Action} (h : a.isSteady = true) : (s.act n a).stream = s.stream ∨
    (s.state.connection = .disconnected ∧ (s.act n a).state.connection = .connected ∧
      (s.act n a).stream = .born) ∨
    ((s.stream = .born ∨ ∃ b, s.stream = .pausing b) ∧ ((s.act n a).stream = .finished ∨
      ∃ b again, (s.act n a).stream = .opening s.state.resumePoint b again)) := by
  cases a with
  | call owner r => exact .inl (by rw [act_call_frame])
  | proceed => exact .inl (by rw [act_proceed_frame])
  | settle a => exact (act_settle_connects a).imp And.right .inl
  | connect => exact connect_connects.imp And.right .inl
  | awaken =>
    cases hs : s.stream with
    | born =>
      refine .inr (.inr ⟨.inl rfl, ?_⟩)
      simpa only [act, awaken, hs] using open?_stream {} false
    | pausing b =>
      refine .inr (.inr ⟨.inr ⟨b, rfl⟩, ?_⟩)
      simpa only [act, awaken, hs] using open?_stream b true
    | _ => exact .inl (by simp only [act, awaken, hs])
  | callAcknowledge owner => exact .inl rfl
  | forget id => exact .inl rfl
  | dropPoke t => exact .inl rfl
  | dropSubscription t => exact .inl rfl
  | _ => cases h

theorem retry?_stream (backoff : Retry.Backoff) : (s.retry? n backoff).2.stream = .finished ∨
    ∃ b, (s.retry? n backoff).2.stream = .pausing b := by
  unfold retry? Retry.Backoff.next
  split_ifs with h
  · exact .inl rfl
  · exact .inr ⟨_, rfl⟩

theorem act_fail_stream : (s.act n .fail).stream ≠ .reading ∧
    ∀ resume b again, (s.act n .fail).stream ≠ .opening resume b again := by
  have key (b : Retry.Backoff) : (s.retry? n b).2.stream ≠ .reading ∧
      ∀ resume c again, (s.retry? n b).2.stream ≠ .opening resume c again := by
    rcases retry?_stream (n := n) (s := s) b with h | ⟨c, h⟩ <;> simp [h]
  cases hs : s.stream with
  | opening resume b again => simpa only [act, fail?, hs] using key b
  | reading => simpa only [act, fail?, hs] using key {}
  | _ => simp [act, fail?, hs]

/-- The stream has been born only if there is a connection or has been one. -/
def Joined (s : Session) : Prop := s.state.connection = .disconnected → s.stream = .unborn

theorem act_stream_of_unborn {a : Action} (hs : s.stream = .unborn)
    (hd : (s.act n a).state.connection = .disconnected) : (s.act n a).stream = .unborn := by
  cases ha : a.isSteady with
  | true =>
    rcases act_stream (n := n) (s := s) ha with h | ⟨-, h, -⟩ | ⟨h | ⟨b, h⟩, -⟩
    · rw [h, hs]
    · rw [hd] at h
      cases h
    · rw [hs] at h
      cases h
    · rw [hs] at h
      cases h
  | false =>
    cases a with
    | opened => simp [act, opened, hs]
    | fail => simp [act, fail?, hs]
    | receive e => simp [act, receive, hs]
    | halt => simp [act, halt, hs, Stream.listens]
    | close => simp only [act, close, tearDown_stream, hs]
    | _ => cases ha

theorem act_disconnected {a : Action} (hd : (s.act n a).state.connection = .disconnected) :
    s.state.connection = .disconnected := by
  have key (r : String) (hr : (s.act n a).state = (s.state.tearDown? r).getD s.state) :
      s.state.connection = .disconnected := by
    rw [hr] at hd
    unfold State.tearDown? at hd
    split_ifs at hd
    · exact hd
    · cases hd
  by_cases hc : a = .close
  · subst hc
    exact key _ act_close_state
  · by_cases hf : a = .fail
    · subst hf
      rw [act_fail_state] at key hd
      split_ifs at key hd
      · exact key _ rfl
      · exact hd
    · rcases act_connection (n := n) (s := s) hc hf with h | ⟨h, -⟩
      · rw [← h, hd]
      · exact h

theorem Joined.act (h : s.Joined) (a : Action) : (s.act n a).Joined :=
  fun hd => act_stream_of_unborn (h (act_disconnected hd)) hd

theorem joined_run (as : List Action) : (run n {} as).Joined :=
  run_induction (fun _ => rfl) (fun _ a h => h.act a) as

end Session

end ShipBridge
