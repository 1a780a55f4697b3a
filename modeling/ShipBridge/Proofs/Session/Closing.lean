import ShipBridge.Proofs.Session.Cursor
import ShipBridge.Proofs.Session.Outcomes
import ShipBridge.Proofs.Session.Streams

/-!
# The end of a session is final

The connection only moves forward, and the session is closed at one moment: with it the tables
are emptied, and the ship is told to discard the channel at most once. From then on nothing more
comes of the session. A call that begins is turned away and takes no id, one that still queues for
the line fails when its turn comes, no batch is sent, and neither the answers to pokes nor the
mailboxes change any more.
-/

namespace ShipBridge

open Wire

namespace Session

def starts (n : Nat) (s : Session) (a : Action) : Bool :=
  s.stream != .born && (s.act n a).stream == .born

def Connection.rank : Connection → Nat
  | .disconnected => 0
  | .connected => 1
  | .closed => 2

variable {n : Nat} {s t u : Session}

/-! ## The connection -/

theorem act_state_of_ends {a : Action} (ha : a = .close ∨ a = .fail) :
    (s.act n a).state = s.state ∨ ∃ r, s.state.tearDown? r = some (s.act n a).state := by
  cases h : s.ending? n a with
  | none => exact .inl (act_state_of_not_ending ha h)
  | some r => exact .inr ⟨r, tearDown?_of_ending h⟩

theorem rank_act (a : Action) :
    s.state.connection.rank ≤ (s.act n a).state.connection.rank := by
  by_cases ha : a = .close ∨ a = .fail
  · rcases act_state_of_ends (n := n) (s := s) ha with h | ⟨r, h⟩
    · exact h ▸ Nat.le_refl _
    · have hc : (s.act n a).state.connection = .closed := by
        simpa [State.isClosed] using (State.isClosed_of_tearDown? h).2
      rw [hc]
      cases s.state.connection <;> decide
  · rw [not_or] at ha
    rcases act_connection (n := n) (s := s) ha.1 ha.2 with h | ⟨h, h'⟩
    · exact h ▸ Nat.le_refl _
    · rw [h, h']
      decide

theorem isClosed_act (h : s.state.isClosed = true) (a : Action) :
    (s.act n a).state.isClosed = true := by
  have hc : s.state.connection = .closed := by simpa [State.isClosed] using h
  have hrank := rank_act (n := n) (s := s) a
  rw [hc] at hrank
  cases hn : (s.act n a).state.connection with
  | closed => simp [State.isClosed, hn]
  | _ =>
    rw [hn] at hrank
    exact absurd hrank (by decide)

theorem mem_trail_induction {P : Session → Prop} (h : P s) (hact : ∀ s a, P s → P (s.act n a))
    {as : List Action} {m : Session × Action} (hm : m ∈ trail n s as) : P m.1 := by
  induction as generalizing s with
  | nil => cases hm
  | cons a as ih =>
    rcases List.mem_cons.mp hm with rfl | hm
    · exact h
    · exact ih (hact s a h) hm

theorem isClosed_run (h : s.state.isClosed = true) (as : List Action) :
    (run n s as).state.isClosed = true :=
  run_induction (P := fun t => t.state.isClosed = true) h (fun _ a ht => isClosed_act ht a) as

theorem isClosed_of_mem_trail (h : s.state.isClosed = true) {as : List Action}
    {m : Session × Action} (hm : m ∈ trail n s as) : m.1.state.isClosed = true :=
  mem_trail_induction (P := fun t => t.state.isClosed = true) h (fun _ a ht => isClosed_act ht a) hm

/-- What leads to a state that lasts and in which it does not happen happens at most once. -/
theorem countP_trail_le_one {p : Session → Action → Bool} {P : Session → Prop}
    (hact : ∀ s a, P s → P (s.act n a)) (hp : ∀ s a, p s a = true → ¬P s ∧ P (s.act n a))
    (as : List Action) : (trail n s as).countP (fun m => p m.1 m.2) ≤ 1 := by
  have hnever {t : Session} (ht : P t) (bs : List Action) :
      (trail n t bs).countP (fun m => p m.1 m.2) = 0 := by
    rw [List.countP_eq_zero]
    intro m hm hpm
    exact (hp m.1 m.2 hpm).1 (mem_trail_induction ht hact hm)
  induction as generalizing s with
  | nil => exact Nat.zero_le 1
  | cons a as ih =>
    cases h : p s a with
    | false =>
      rw [trail, List.countP_cons_of_neg (by simp [h])]
      exact ih
    | true =>
      rw [trail, List.countP_cons, hnever (hp s a h).2 as]
      simp [h]

/-! ## The tables of a closed session -/

theorem Pokes.apply_of_empty {p : Pokes} (h : p.entries = []) {op : Pokes.Op}
    (hop : ∀ id, op ≠ .register id) : (p.apply op).entries = [] ∧
      ∀ ticket, ((p.apply op).slot ticket).outcome? = (p.slot ticket).outcome? := by
  have hnone (id : Nat) : p.ticket? id = none := by rw [Pokes.ticket?, h]; rfl
  cases op with
  | register id => exact absurd rfl (hop id)
  | resolve id a =>
    rw [Pokes.apply, Pokes.resolve_snd, Pokes.close, hnone]
    exact ⟨h, fun _ => rfl⟩
  | remove id =>
    rw [Pokes.apply, Pokes.remove_snd, Pokes.close, hnone]
    exact ⟨h, fun _ => rfl⟩
  | failAll fault =>
    rw [Pokes.apply, Pokes.failAll_snd, h]
    exact ⟨rfl, fun _ => rfl⟩
  | abandon u =>
    simp only [Pokes.apply, Pokes.abandon]
    split
    · next hw =>
      refine ⟨h, fun ticket => ?_⟩
      rw [p.slot_set _ (p.lt_length_of_waiting hw)]
      split_ifs with hu
      · rw [hu, hw]
        rfl
      · rfl
    · exact ⟨h, fun _ => rfl⟩

theorem Subscriptions.apply_of_empty {t : Subscriptions} (h : t.entries = [])
    {op : Subscriptions.Op} (hop : ∀ id, op ≠ .register id) : (t.apply op).entries = [] ∧
      ∀ ticket, ((t.apply op).mailbox ticket).notices = (t.mailbox ticket).notices := by
  have hnone (id : Nat) : t.entry? id = none := by rw [Subscriptions.entry?, h]; rfl
  have hclose (id : Nat) (last : Option Notice) : t.close id last = t := by
    rw [Subscriptions.close, hnone]
    rfl
  cases op with
  | register id => exact absurd rfl (hop id)
  | deliver id json =>
    rw [Subscriptions.apply, Subscriptions.deliver_snd, hnone]
    exact ⟨h, fun _ => rfl⟩
  | reject id message =>
    rw [Subscriptions.apply, Subscriptions.reject_snd, hclose, ite_self]
    exact ⟨h, fun _ => rfl⟩
  | quit id =>
    rw [Subscriptions.apply, Subscriptions.quit, Subscriptions.terminate_snd, hclose]
    exact ⟨h, fun _ => rfl⟩
  | remove id =>
    rw [Subscriptions.apply, Subscriptions.remove_snd, hclose]
    exact ⟨h, fun _ => rfl⟩
  | terminateAll reason =>
    rw [Subscriptions.apply, Subscriptions.terminateAll_snd, h]
    exact ⟨rfl, fun _ => rfl⟩
  | abandon u =>
    simp only [Subscriptions.apply, Subscriptions.abandon]
    split_ifs with hu
    · exact ⟨h, fun _ => rfl⟩
    · have hlt : u < t.mailboxes.length := by
        by_contra hn
        simp [Subscriptions.mailbox, List.getD_eq_getElem?_getD,
          List.getElem?_eq_none (Nat.le_of_not_lt hn)] at hu
      refine ⟨h, fun ticket => ?_⟩
      rw [Subscriptions.mailbox_setMailbox _ _ hlt]
      split_ifs with ht
      · rw [ht]
      · rfl

/-- A session that is closed, with nothing left to answer or to feed. -/
structure Shut (s : Session) : Prop where
  closed : s.state.isClosed = true
  pokes : s.state.pokes.entries = []
  subscriptions : s.state.subscriptions.entries = []

/-- No id has been given, no poke has been answered and no mailbox has been fed meanwhile. -/
structure Unmoved (s t : State) : Prop where
  nextId : t.nextId = s.nextId
  outcomes : ∀ ticket, (t.pokes.slot ticket).outcome? = (s.pokes.slot ticket).outcome?
  notices : ∀ ticket,
    (t.subscriptions.mailbox ticket).notices = (s.subscriptions.mailbox ticket).notices

theorem Unmoved.refl (s : State) : Unmoved s s := ⟨rfl, fun _ => rfl, fun _ => rfl⟩

theorem Unmoved.trans {s t u : State} (h : Unmoved s t) (h' : Unmoved t u) : Unmoved s u where
  nextId := h'.nextId.trans h.nextId
  outcomes ticket := (h'.outcomes ticket).trans (h.outcomes ticket)
  notices ticket := (h'.notices ticket).trans (h.notices ticket)

/-- Nothing is entered in a session that is closed. -/
theorem change?_of_closed (hc : s.state.isClosed = true) {a : Action} {c : Change}
    (h : s.change? n a = some c) (id : Nat) (r : Request) : c ≠ .enter id r := by
  rintro rfl
  cases a <;> simp [change?, hc] at h

theorem Change.onPokes_of_empty {p : Pokes} (h : p.entries = []) {c : Change}
    (hc : ∀ id r, c ≠ .enter id r) : (c.onPokes p).entries = [] ∧
      ∀ ticket, ((c.onPokes p).slot ticket).outcome? = (p.slot ticket).outcome? := by
  unfold Change.onPokes
  cases ho : c.pokeOp? with
  | none => exact ⟨h, fun _ => rfl⟩
  | some op =>
    refine Pokes.apply_of_empty h ?_
    rintro id rfl
    obtain ⟨r, hr⟩ := register_of_pokeOp? ho
    exact hc id r hr

theorem Change.onSubscriptions_of_empty {t : Subscriptions} (h : t.entries = []) {c : Change}
    (hc : ∀ id r, c ≠ .enter id r) : (c.onSubscriptions t).entries = [] ∧
      ∀ ticket, ((c.onSubscriptions t).mailbox ticket).notices = (t.mailbox ticket).notices := by
  unfold Change.onSubscriptions
  cases ho : c.subscriptionOp? with
  | none => exact ⟨h, fun _ => rfl⟩
  | some op =>
    refine Subscriptions.apply_of_empty h ?_
    rintro id rfl
    obtain ⟨r, hr⟩ := register_of_subscriptionOp? ho
    exact hc id r hr

theorem Shut.act (h : s.Shut) (a : Action) :
    (s.act n a).Shut ∧ Unmoved s.state (s.act n a).state := by
  have hnext : (s.act n a).state.nextId = s.state.nextId := by
    have hnone : s.allotted? a = none := by cases a <;> simp [allotted?, h.closed]
    rw [act_nextId, hnone]
    rfl
  obtain ⟨hp, hs⟩ := Prod.mk.inj (act_tables (n := n) (s := s) a)
  have hpokes : (s.act n a).state.pokes.entries = [] ∧ ∀ ticket,
      ((s.act n a).state.pokes.slot ticket).outcome? = (s.state.pokes.slot ticket).outcome? := by
    rw [hp]
    cases hc : s.change? n a with
    | none => exact ⟨h.pokes, fun _ => rfl⟩
    | some c => exact Change.onPokes_of_empty h.pokes (change?_of_closed h.closed hc)
  have hsubscriptions : (s.act n a).state.subscriptions.entries = [] ∧ ∀ ticket,
      ((s.act n a).state.subscriptions.mailbox ticket).notices =
        (s.state.subscriptions.mailbox ticket).notices := by
    rw [hs]
    cases hc : s.change? n a with
    | none => exact ⟨h.subscriptions, fun _ => rfl⟩
    | some c =>
      exact Change.onSubscriptions_of_empty h.subscriptions (change?_of_closed h.closed hc)
  exact ⟨⟨isClosed_act h.closed a, hpokes.1, hsubscriptions.1⟩, hnext, hpokes.2, hsubscriptions.2⟩

theorem Shut.run (h : s.Shut) (as : List Action) : Unmoved s.state (run n s as).state := by
  refine (run_induction (P := fun t => t.Shut ∧ Unmoved s.state t.state) ⟨h, .refl _⟩ ?_ as).2
  intro t a ht
  obtain ⟨hshut, hstep⟩ := ht.1.act (n := n) a
  exact ⟨hshut, ht.2.trans hstep⟩

theorem State.entries_of_tearDown? {s t : State} {r : String} (h : s.tearDown? r = some t) :
    t.pokes.entries = [] ∧ t.subscriptions.entries = [] := by
  unfold State.tearDown? at h
  split_ifs at h
  rw [← Option.some.inj h]
  exact ⟨rfl, rfl⟩

theorem shut_act (h : s.state.isClosed = true → s.Shut) (a : Action)
    (hc : (s.act n a).state.isClosed = true) : (s.act n a).Shut := by
  cases ho : s.state.isClosed with
  | true => exact ((h ho).act a).1
  | false =>
    obtain ⟨r, hr⟩ : ∃ r, s.ending? n a = some r := by simp [ending?, ho, hc]
    obtain ⟨hp, hs⟩ := State.entries_of_tearDown? (tearDown?_of_ending hr)
    exact ⟨hc, hp, hs⟩

theorem shut_of_closed (as : List Action) (hc : (run n {} as).state.isClosed = true) :
    (run n {} as).Shut := by
  refine run_induction (P := fun t => t.state.isClosed = true → t.Shut) ?_ ?_ as hc
  · intro h
    cases h
  · intro t a ht hc
    exact shut_act ht a hc

/-! ## What is asked of the transport -/

theorem close_fst_of_closed (h : s.state.isClosed = true) : s.close.1 = false := by
  simp [close, tearDown, State.tearDown?, h]

/-- A closed session asks for nothing but an opening of the stream. -/
theorem demand?_of_closed (h : s.state.isClosed = true) (a : Action) {d : Demand}
    (hd : s.demand? a = some d) : ∃ resume, d = .opening resume := by
  cases a with
  | proceed =>
    simp only [demand?] at hd
    split at hd
    · next hs =>
      obtain ⟨e, w, -, hc, -⟩ := granted_of_send hs
      rw [h] at hc
      cases hc
    · cases hd
  | close =>
    simp only [demand?, close_fst_of_closed h] at hd
    cases hd
  | awaken =>
    obtain ⟨resume, -, hr⟩ := Option.map_eq_some_iff.mp hd
    exact ⟨resume, hr.symm⟩
  | _ => cases hd

theorem isClosed_of_discard {a : Action} (hd : s.demand? a = some .discard) :
    s.state.isClosed = false ∧ (s.act n a).state.isClosed = true := by
  have ho : s.state.isClosed = false := by
    by_contra hc
    obtain ⟨resume, hr⟩ := demand?_of_closed (by simpa using hc) a hd
    cases hr
  refine ⟨ho, ?_⟩
  cases a with
  | close =>
    rw [act_close_state, State.tearDown?, ho]
    rfl
  | proceed =>
    simp only [demand?] at hd
    split at hd <;> cases hd
  | awaken =>
    obtain ⟨resume, -, hr⟩ := Option.map_eq_some_iff.mp hd
    cases hr
  | _ => cases hd

theorem opening_of_mem_demands (h : s.state.isClosed = true) {as : List Action} {d : Demand}
    (hd : d ∈ demands n s as) : ∃ resume, d = .opening resume := by
  obtain ⟨m, hm, hmd⟩ := List.mem_filterMap.mp hd
  exact demand?_of_closed (isClosed_of_mem_trail h hm) m.2 hmd

/-- The ship is told to discard the channel once at most. -/
theorem count_discard_le_one (as : List Action) : (demands n s as).count .discard ≤ 1 := by
  rw [demands, List.count_filterMap]
  refine countP_trail_le_one (P := fun s => s.state.isClosed = true)
    (p := fun s a => s.demand? a == some .discard) (fun s a hs => isClosed_act hs a) ?_ as
  intro s a h
  obtain ⟨ho, hc⟩ := isClosed_of_discard (n := n) (beq_iff_eq.mp h)
  exact ⟨by simp [ho], hc⟩

theorem proceed?_of_closed (hc : s.state.isClosed = true) {e : Errand} {w : List Errand}
    (hl : s.line = .granted e w) : ∃ u, s.proceed? = some (.done (.error .closed), u) := by
  simp [proceed?, hl, hc]

theorem call?_of_closed (hc : s.state.isClosed = true) (owner : Nat) (r : Request) :
    s.call? owner r = none := by
  cases r <;> simp [call?, State.register?, hc]

/-! ## The start of the stream -/

theorem connects_of_starts {a : Action} (h : s.starts n a = true) :
    s.state.connection = .disconnected ∧ (s.act n a).state.connection = .connected := by
  have hb : s.stream ≠ .born ∧ (s.act n a).stream = .born := by simpa [starts] using h
  have hsame (he : (s.act n a).stream = s.stream) : False := hb.1 (he ▸ hb.2)
  cases ha : a.isSteady with
  | true =>
    rcases act_stream (n := n) (s := s) ha with he | ⟨hd, hc, -⟩ | ⟨-, he | ⟨b, again, he⟩⟩
    · exact absurd he hsame
    · exact ⟨hd, hc⟩
    · rw [hb.2] at he
      cases he
    · rw [hb.2] at he
      cases he
  | false =>
    exfalso
    obtain ⟨hs, hn⟩ := hb
    cases a with
    | opened =>
      simp only [act, opened] at hn
      split at hn
      · cases hn
      · exact hs hn
    | fail =>
      have hretry (b : Retry.Backoff) : (s.retry? n b).2.stream ≠ .born := by
        rcases retry?_stream (n := n) (s := s) b with he | ⟨c, he⟩ <;> simp [he]
      simp only [act, fail?] at hn
      split at hn
      · exact hretry _ hn
      · exact hretry _ hn
      · exact hs hn
    | halt =>
      simp only [act, halt] at hn
      split_ifs at hn
      exact hs hn
    | receive e => exact hsame (act_receive_stream e)
    | close => exact hsame (tearDown_stream _)
    | _ => cases ha

/-! ## Whole runs -/

/-- The connection only moves forward, and neither is the stream started twice nor the channel
discarded twice. Once a session is closed its tables are empty, calls are turned away without an
id, also those that were waiting for the line, no batch is sent, and nothing reaches anyone who
waits for an answer or listens to a subscription. -/
theorem closed_is_final (n : Nat) (as : List Action) :
    (∀ m ∈ trail n {} as,
      m.1.state.connection.rank ≤ (m.1.act n m.2).state.connection.rank) ∧
    (trail n {} as).countP (fun m => m.1.starts n m.2) ≤ 1 ∧
    (demands n {} as).count .discard ≤ 1 ∧
    ∀ before after, as = before ++ after →
      let s := run n {} before
      let t := run n {} as
      s.state.isClosed = true →
        (s.state.pokes.entries = [] ∧ s.state.subscriptions.entries = []) ∧
        (∀ owner r, s.call? owner r = none) ∧
        (∀ e w, s.line = .granted e w → ∃ u, s.proceed? = some (.done (.error .closed), u)) ∧
        (∀ batch, .put batch ∉ demands n s after) ∧
        t.state.isClosed = true ∧ t.state.nextId = s.state.nextId ∧
        (∀ ticket, (t.state.pokes.slot ticket).outcome? = (s.state.pokes.slot ticket).outcome?) ∧
        ∀ ticket, (t.state.subscriptions.mailbox ticket).notices =
          (s.state.subscriptions.mailbox ticket).notices := by
  refine ⟨fun m _ => rank_act m.2, ?_, count_discard_le_one as, ?_⟩
  · refine countP_trail_le_one (P := fun s => s.state.connection ≠ .disconnected) ?_ ?_ as
    · intro s a hs hd
      exact hs (act_disconnected hd)
    · intro s a h
      obtain ⟨hd, hc⟩ := connects_of_starts h
      exact ⟨fun hs => hs hd, by simp [hc]⟩
  · rintro before after rfl s t hc
    have hshut : s.Shut := shut_of_closed before hc
    have ht : t = run n s after := run_append before after
    have hmoved := hshut.run (n := n) after
    rw [← ht] at hmoved
    refine ⟨⟨hshut.pokes, hshut.subscriptions⟩, call?_of_closed hc,
      fun e w => proceed?_of_closed hc, ?_, ht ▸ isClosed_run hc after, hmoved.nextId,
      hmoved.outcomes, hmoved.notices⟩
    intro batch hput
    obtain ⟨resume, hr⟩ := opening_of_mem_demands hc hput
    cases hr

theorem closed_is_final_queued :
    let r : Request := .poke "zod" "hood" "helm-hi" .null
    let before : List Action := [.call 0 r, .proceed, .call 1 r, .close, .settle (.ok ())]
    let s := run 3 {} before
    s.state.isClosed = true ∧ s.state.nextId = 3 ∧ s.line.granted? = some 1 ∧
      ∃ u, s.proceed? = some (.done (.error .closed), u) := by
  intro r before s
  have hclosed : s.state.isClosed = true := rfl
  have hfinal := (closed_is_final 3 before).2.2.2 before [] (by simp) hclosed
  exact ⟨hclosed, rfl, rfl, hfinal.2.2.1 _ _ rfl⟩

end Session

end ShipBridge
