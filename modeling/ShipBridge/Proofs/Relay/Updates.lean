import ShipBridge.Proofs.Relay.EntriesSeenTo

/-!
# Updates from the ship

An update without an id is passed on to the editor as a notification. One with an id takes the entry
that bears it out of the pending requests and puts an answer in the slot of the entry. Slots that
are filled stay as they are through every run, since an entry never refers to one; so whoever waits
on the slot, no matter when it runs, finds that answer and passes it on.
-/

namespace ShipBridge.Relay

namespace Machine

variable {e : Surroundings} {m m' : Machine} {j : Nat}

/-! ## Answers last through a run -/

theorem Deed.lasts (h : Deed e j m m') (hl : Ledger e m.pending m.issued) :
    m.pending.Lasts m'.pending := by
  have hbooks {p : Pending} (hp : m'.pending = p) (hlasts : m.pending.Lasts p) :
      m.pending.Lasts m'.pending := hp ▸ hlasts
  have hsame : m.pending.Lasts m.pending := fun _ _ hk => hk
  cases h with
  | goesOn next s p issued input silent still care acts fades talks eq =>
    exact hbooks (congrArg Books.pending eq) (fades.lasts hl)
  | forwards r f s p input silent free call care key slot talks eq =>
    exact hbooks (congrArg Books.pending eq) (m.pending.lasts_enter f.correlation)
  | ends p a s next new held q own passes still plain hands failed fades talks resumes eq =>
    exact hbooks (congrArg Books.pending eq) (fades.lasts hl)
  | forgets c id care silent poke eq =>
    refine hbooks (congrArg Books.pending eq) ?_
    cases c.request? with
    | none => exact hsame
    | some f => exact hsame
  | _ =>
    rename_i eq
    exact hbooks (congrArg Books.pending eq) hsame

/-- A happening keeps the ledger and every answer. -/
theorem after_lasts (hn : m.Numbered) (hl : Ledger e m.pending m.issued) (h : Happening) :
    Ledger e (m.after e h).pending (m.after e h).issued ∧
      m.pending.Lasts (m.after e h).pending := by
  by_cases hstep : ∃ j, h = .step j
  · obtain ⟨j, rfl⟩ := hstep
    exact ⟨(step_deed hn j).ledger hl, (step_deed hn j).lasts hl⟩
  by_cases hcall : ∃ n c, h = .call n c
  · obtain ⟨n, c, rfl⟩ := hcall
    exact ⟨hl, fun _ _ hk => hk⟩
  · have hout : Outside e m (m.after e h) := after_outside m (fun j hj => hstep ⟨j, hj⟩)
      fun n c hc => hcall ⟨n, c, hc⟩
    exact ⟨hout.fades.ledger hl, hout.fades.lasts hl⟩

theorem run_lasts (ho : m.Orderly) (hl : Ledger e m.pending m.issued) (hs : List Happening) :
    Ledger e (m.run e hs).pending (m.run e hs).issued ∧ m.pending.Lasts (m.run e hs).pending := by
  induction hs generalizing m with
  | nil => exact ⟨hl, fun _ _ hk => hk⟩
  | cons h hs ih =>
    obtain ⟨hledger, hfirst⟩ := after_lasts ho.numbered hl h
    obtain ⟨hend, hrest⟩ := ih (ho.after h) hledger
    exact ⟨hend, fun k o hk => hrest k o (hfirst k o hk)⟩

theorem ledger_run (hs : List Happening) :
    Ledger e (run e {} hs).pending (run e {} hs).issued :=
  (run_lasts orderly_initial ⟨rfl, nofun⟩ hs).1

/-! ## One update -/

def answer (update : Json) : Outcome :=
  match update.get? "error" with
  | some error => .error (remoteFault error)
  | none => .ok ((update.get? "result").getD .null)

theorem route_of_id {update id : Json} (h : update.get? "id" = some id) : m.route update =
    { m with pending := m.pending.resolve (correlation id) (answer update) } := by
  simp only [route, Update.ofJson, h]
  rfl

theorem route_of_method {update : Json} (h : update.get? "id" = none) {method : String}
    (hm : (update.get? "method").bind Json.string? = some method) :
    m.route update = (m.send (.notify method (update.get? "params"))).2 := by
  simp only [route, Update.ofJson, h, hm]

theorem route_of_stray {update : Json} (h : update.get? "id" = none)
    (hm : (update.get? "method").bind Json.string? = none) : m.route update = m := by
  simp only [route, Update.ofJson, h, hm]

theorem send_of_open (ho : m.outlet = .open) (message : Editor.Message) :
    (m.send message).2 = m.emit (.message message) := by
  simp only [send, ho]

theorem send_pending (m : Machine) (message : Editor.Message) :
    (m.send message).2.pending = m.pending := congrArg Books.pending (m.books_send message)

theorem resolve_of_unknown {p : Pending} {key : String} (h : p.entries.lookup key = none)
    (o : Outcome) : p.resolve key o = p := by
  simp only [Pending.resolve, h]

theorem resolve_of_entry {p : Pending} {key : String} {k : Nat}
    (h : p.entries.lookup key = some k) (o : Outcome) :
    p.resolve key o = { p.erase key with slots := p.slots.set k (some o) } := by
  simp only [Pending.resolve, h]

/-- A job that waits on a filled slot for a request whose poke has not failed is ready, and its step
responds with what the slot holds. -/
theorem await_of_filled {c : Nat} {client : Json} {f : Forwarded} {t : Timer} {o : Outcome}
    (hj : m.task? j = some (.await (.editor c client) f t)) (ho : m.pending.slot? f.slot = some o)
    (hpoke : m.failure? f = none) (hopen : m.outlet = .open) :
    m.ready e j = true ∧ (m.step e j).log = .message (respond client o) :: m.log := by
  have hverdict : m.verdict? e j f = some o := verdict?_of_answer ho hpoke
  have hready : m.readyTask e j (.await (.editor c client) f t) = true := by
    simp only [readyTask, hverdict, Option.isSome_some, Bool.true_or]
  have hstep : m.step e j = m.conclude j (.editor c client) f o := by
    simp only [step, hj, hready, if_true, stepTask, hverdict]
  refine ⟨by rw [ready, hj, Option.any_some, hready], ?_⟩
  rw [hstep]
  cases o with
  | ok v => simp only [conclude, tell, send_of_open hopen, dismiss, emit]
  | error fault => simp only [conclude, tell, send, hopen, dismiss, emit]

/-! ## Relaying -/

/-- The members of the response that an update with an id brings to the client's request: the
result, null if there is none, or else the error with what it lacks filled in. -/
def replyMembers (client update : Json) : List (String × Json) :=
  [("jsonrpc", .string "2.0"), ("id", client)] ++ match update.get? "error" with
    | none => [("result", (update.get? "result").getD .null)]
    | some error => [("error", .object (
        [("code", .ofInt (((error.get? "code").bind Json.int64?).getD (-32603))),
          ("message", .string (((error.get? "message").bind Json.string?).getD error.text))] ++
        Editor.optionalMember "data" (error.get? "data")))]

theorem members_respond (client update : Json) :
    (respond client (answer update)).members = replyMembers client update := by
  unfold answer replyMembers
  cases update.get? "error" with
  | none => rfl
  | some error => rfl

/-- Updates are relayed faithfully, whatever state the bridge has come to. -/
theorem updates_relayed (hs : List Happening) (update : Json) :
    let m := run e {} hs
    let m' := m.route update
    -- without an id: one notification if there is a method, and nothing else
    (update.get? "id" = none → m'.pending = m.pending ∧
      (∀ method, (update.get? "method").bind Json.string? = some method → m.outlet = .open →
        ∃ n, m' = m.emit (.message n) ∧
          n.members = [("jsonrpc", .string "2.0"), ("method", .string method)] ++
            Editor.optionalMember "params" (update.get? "params")) ∧
      ((update.get? "method").bind Json.string? = none → m' = m)) ∧
    -- with the id of no pending request: nothing
    (∀ id, update.get? "id" = some id → m.pending.entries.lookup (correlation id) = none →
      m' = m) ∧
    -- with the id of a pending request: its entry goes, its slot is filled, and that is all
    (∀ id k, update.get? "id" = some id → m.pending.entries.lookup (correlation id) = some k →
      m' = { m with pending := m'.pending } ∧
      (∀ key, m'.pending.entries.lookup key =
        if key = correlation id then none else m.pending.entries.lookup key) ∧
      (∀ i ≠ k, m'.pending.slot? i = m.pending.slot? i) ∧
      -- whenever its waiter is found waiting, the next step of the waiter is the response
      ∀ later j c client f t, (m'.run e later).task? j = some (.await (.editor c client) f t) →
        f.slot = k → (m'.run e later).outlet = .open →
        (∀ fault, ((m'.run e later).session.state.pokes.slot f.ticket).outcome?
          ≠ some (.error fault)) →
        (m'.run e later).ready e j = true ∧
        ∃ r, ((m'.run e later).step e j).log = .message r :: (m'.run e later).log ∧
          r.members = replyMembers client update) := by
  intro m m'
  refine ⟨fun hid => ⟨?_, fun method hm hopen => ?_, fun hm => route_of_stray hid hm⟩,
    fun id hid hnone => ?_, fun id k hid hk => ?_⟩
  · cases hm : (update.get? "method").bind Json.string? with
    | none => exact congrArg Machine.pending (route_of_stray hid hm)
    | some method => rw [show m' = _ from route_of_method hid hm, send_pending]
  · exact ⟨_, (route_of_method hid hm).trans (send_of_open hopen _), rfl⟩
  · rw [show m' = _ from route_of_id hid, resolve_of_unknown hnone]
  · have hm' : m' = { m with pending := m.pending.resolve (correlation id) (answer update) } :=
      route_of_id hid
    have hpending : m'.pending = { m.pending.erase (correlation id) with
        slots := m.pending.slots.set k (some (answer update)) } := by
      rw [hm', resolve_of_entry hk]
    have hfilled : m'.pending.slot? k = some (answer update) := by
      have hopen := ((ledger_run (e := e) hs).entry _ k (Pending.mem_of_lookup hk)).2
      have hlt : k < m.pending.slots.length := (List.getElem?_eq_some_iff.mp hopen).1
      rw [Pending.slot?_eq_some, hpending]
      exact List.getElem?_set_self hlt
    have hrun : m.Orderly := orderly_initial.run hs
    have horderly : m'.Orderly := hrun.after (e := e) (.updated update)
    have hledger : Ledger e m'.pending m'.issued :=
      (after_lasts hrun.numbered (ledger_run hs) (.updated update)).1
    refine ⟨by rw [hm'], fun key => ?_, fun i hi => ?_, ?_⟩
    · rw [hpending]
      exact Session.lookup_filter_ne m.pending.entries (correlation id) key
    · rw [hpending, Pending.slot?, Pending.slot?, List.getElem?_set_ne hi.symm]
    · rintro later j c client f t hj rfl hopen hpoke
      have hslot := (run_lasts horderly hledger later).2 f.slot _ hfilled
      have hnone : (m'.run e later).failure? f = none := by
        refine Option.eq_none_iff_forall_not_mem.mpr fun o ho => ?_
        obtain ⟨fault, hfault, -⟩ := failure?_eq_some.mp ho
        exact hpoke fault hfault
      obtain ⟨hready, hlog⟩ := await_of_filled (e := e) hj hslot hnone hopen
      exact ⟨hready, _, hlog, members_respond client update⟩

/-- The ship refuses a request: its id comes back as a number, its error has no code and no text for
a message, and the data of the error is null. -/
theorem updates_relayed_refusal :
    let e : Surroundings :=
      { settings := { ship := "zod" }, reconnect := {}, limit := 1000, correlate := toString }
    let body := Utf8.encode "\x7b\"jsonrpc\":\"2.0\",\"id\":7,\"method\":\"hover\"\x7d".toList
    let hs : List Happening := [.call 0 .converse, .step 0, .wrote (Editor.Framing.write body),
      .step 0, .step 0, .delivered (.ok ()), .step 0]
    let refusal : Json := .object [("error", .object [("data", .null), ("message", 5)]), ("id", 1)]
    let m' := (run e {} hs).route refusal
    m'.ready e 2 = true ∧ ∃ r, (m'.step e 2).log = .message r :: m'.log ∧
      r.members = [("jsonrpc", .string "2.0"), ("id", 7), ("error", .object
        [("code", .ofInt (-32603)), ("message", .string "\x7b\"data\":null,\"message\":5\x7d"),
          ("data", .null)])] := by
  intro e body hs refusal m'
  have hcharge : (m'.task? 2).bind Task.charge? =
      some { slot := 0, id := 7, deadline := some ⟨30000, 0⟩ } := by decide +kernel
  obtain ⟨t, hj, ht⟩ := Option.bind_eq_some_iff.mp hcharge
  obtain ⟨conversation, f, rfl, hslot⟩ := Task.await_of_charge ht rfl
  have hentry : (run e {} hs).pending.entries.lookup (correlation 1) = some 0 := by decide +kernel
  have hopen : m'.outlet = .open := by decide +kernel
  have hanswer := ((updates_relayed hs refusal).2.2 1 0 rfl hentry).2.2.2
  have hunfailed : ∀ fault, (m'.session.state.pokes.slot f.ticket).outcome?
      ≠ some (.error fault) := by
    have hcare : ((m'.task? 2).bind Task.care?).map Care.ticket = some 0 := by decide +kernel
    have hwaiting : (m'.session.state.pokes.slot 0).outcome?.isNone = true := by decide +kernel
    rw [hj] at hcare
    rw [show f.ticket = 0 from Option.some.inj hcare, Option.isNone_iff_eq_none.mp hwaiting]
    exact fun fault h => by cases h
  obtain ⟨hready, r, hlog, hmembers⟩ := hanswer [] 2 conversation 7 f _ hj hslot hopen hunfailed
  refine ⟨hready, r, hlog, hmembers.trans ?_⟩
  decide +kernel

end Machine

end ShipBridge.Relay
