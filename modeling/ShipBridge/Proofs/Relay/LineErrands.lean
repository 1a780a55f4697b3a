import ShipBridge.Proofs.Relay.StepEffects

/-!
# The errands of the jobs on the line

A job that is sending has one errand on the line, which carries the poke that the job has to see
to; a job that is not sending has none. A step of a job moves no errand but its own, and what
happens outside moves none.
-/

namespace ShipBridge.Relay

open Session (Answer Receipt Freight)

/-- Does a freight carry the poke that has to be seen to? -/
def Purpose.Carries (p : Purpose) (f : Freight) : Prop := ∀ c id, p.care? = some c →
  c.poke? = some id → ∃ ship app mark json, f = .command (.poke id ship app mark json)

/-- A job has an errand on the line as long as it is sending. -/
structure Books.Lined (b : Books) (i : Nat) : Prop where
  one : ∀ p, b.does i (.sending p) → ∃ r, b.session.line.errandsOf i = [r] ∧ p.Carries r.freight
  none : (∀ p, ¬b.does i (.sending p)) → b.session.line.errandsOf i = []

namespace Machine

variable {e : Surroundings} {m m' : Machine} {i j : Nat} {t : Task} {p : Purpose}

/-! ## What a deed leaves to the others -/

/-- A deed leads the session on by an action of its job, if at all. -/
theorem Deed.leads (h : Deed e j m m') : m'.session = m.session ∨
    ∃ a : Session.Action, a.By m.session j ∧
      m'.session = m.session.act e.reconnect.maxAttempts a := by
  cases h with
  | stays eq => exact .inl (congrArg Books.session eq)
  | goesOn next s p issued input silent still care acts fades talks eq =>
    have hs : m'.session = s := congrArg Books.session eq
    rw [hs]
    rcases acts with rfl | ⟨a, ha, rfl⟩
    · exact .inl rfl
    · exact .inr ⟨a, Session.by_of_quiet ha, rfl⟩
  | calls r receipt s p input silent free call care talks eq =>
    have hs : m'.session = s := congrArg Books.session eq
    exact .inr ⟨.call j r, rfl, by rw [hs, ← (Session.call?_eq_some call).1]⟩
  | forwards r f s p input silent free call care key slot talks eq =>
    have hs : m'.session = s := congrArg Books.session eq
    exact .inr ⟨.call j r, rfl, by rw [hs, ← (Session.call?_eq_some call).1]⟩
  | acknowledges silent free eq =>
    exact .inr ⟨.callAcknowledge j, rfl, congrArg Books.session eq⟩
  | puts p batch s own granted send eq =>
    have hs : m'.session = s := congrArg Books.session eq
    exact .inr ⟨.proceed, granted, hs.trans (by simp [Session.act, send])⟩
  | ends p a s next new held q own passes still plain hands failed fades talks resumes eq =>
    have hs : m'.session = s := congrArg Books.session eq
    obtain ⟨b, r, hb, hby, -⟩ := passes.leaves e.reconnect.maxAttempts
    exact .inr ⟨b, hby, hs.trans hb⟩
  | settles c care plain silent outcome eq => exact .inl (congrArg Books.session eq)
  | forgets c id care silent poke eq =>
    exact .inr ⟨.forget id, trivial, congrArg Books.session eq⟩
  | concludes origin f t v own slot eq => exact .inl (congrArg Books.session eq)

theorem Deed.others (h : Deed e j m m') (hi : i ≠ j) : (m.books.does i t → m'.books.does i t) ∧
    (m'.books.does i t → m.books.does i t ∨ (t.purpose? = none ∧ t.talks = false)) := by
  cases h with
  | ends p a s next new held q own passes still plain hands failed fades talks resumes eq =>
    rw [eq]
    simp only [Books.also, Books.next, if_neg hi]
    exact ⟨.inl, fun h => h.imp id fun hnew => plain _ hnew⟩
  | stays eq =>
    rw [eq]
    exact ⟨id, .inl⟩
  | _ =>
    rename_i eq
    rw [eq]
    simp only [Books.next, if_neg hi]
    exact ⟨id, .inl⟩

/-! ## What a deed does about its own errand -/

theorem does_sending_iff (hn : m.Numbered) : m.books.does j (.sending p) ↔
    (m.own j).bind Task.purpose? = some p := by
  rw [hn.does_iff]
  cases m.own j with
  | none => exact iff_of_false nofun nofun
  | some t => cases t <;> simp [Task.purpose?]

theorem carries_of_call {r : Session.Request} {receipt : Receipt} {s s' : Session}
    (h : s.call? j r = some (receipt, s')) (hcare : p.care? = Care.ofReceipt? receipt) :
    p.Carries (.command (r.command s.state.nextId)) := by
  rintro c id hc hid
  rw [hcare] at hc
  rcases Session.call?_pokes h with ⟨ship, app, mark, json, rfl, rfl, -⟩ | ⟨hne, -⟩
  · rw [← Option.some.inj hc] at hid
    rw [← Option.some.inj hid]
    exact ⟨ship, app, mark, json, rfl⟩
  · cases receipt with
    | poke id ticket => exact absurd rfl (hne id ticket)
    | _ => cases hc

theorem carries_of_forward {r : Session.Request} {f : Forwarded} {s s' : Session}
    (h : s.call? j r = some (.poke f.poke f.ticket, s'))
    (hcare : p.care? = some (.ofRequest f)) :
    p.Carries (.command (r.command s.state.nextId)) := by
  rintro c id hc hid
  obtain rfl := Option.some.inj (hc.symm.trans hcare)
  exact carries_of_call (p := .poke 0 f.poke f.ticket false) h rfl _ id rfl hid

theorem lined_of_idle (hl : m.books.Lined j) (silent : ∀ p, ¬m.books.does j (.sending p))
    (still : ∀ p, ¬m'.books.does j (.sending p))
    (herrands : m'.session.line.errandsOf j = m.session.line.errandsOf j) : m'.books.Lined j :=
  ⟨fun p hp => absurd hp (still p), fun _ => herrands.trans (hl.none silent)⟩

theorem lined_of_call {r : Session.Errand} (hl : m.books.Lined j)
    (silent : ∀ p, ¬m.books.does j (.sending p))
    (hbegins : ∀ q, m'.books.does j (.sending q) ↔ q = p)
    (herrands : m'.session.line.errandsOf j = m.session.line.errandsOf j ++ [r])
    (hcarries : p.Carries r.freight) : m'.books.Lined j := by
  refine ⟨fun q hq => ⟨r, ?_, ?_⟩, fun hnone => absurd ((hbegins p).mpr rfl) (hnone p)⟩
  · have hnone : m.session.line.errandsOf j = [] := hl.none silent
    exact herrands.trans (by rw [hnone, List.nil_append])
  · rw [(hbegins q).mp hq]
    exact hcarries

theorem Deed.lined_own (hn : m.Numbered) (h : Deed e j m m') (hl : m.books.Lined j) :
    m'.books.Lined j := by
  have hidle (silent : (m.own j).bind Task.purpose? = none) (p : Purpose) :
      ¬m.books.does j (.sending p) := by
    rw [does_sending_iff hn, silent]
    exact fun h => by cases h
  have hquiet {next : Option Task} (hstill : next.bind Task.purpose? = none) {b : Books}
      (heq : m'.books = b.next j next) (p : Purpose) : ¬m'.books.does j (.sending p) := by
    rw [heq]
    simp only [Books.next, if_true]
    rintro rfl
    cases hstill
  have hbegins {p : Purpose} {b : Books} (heq : m'.books = b.next j (some (.sending p)))
      (q : Purpose) : m'.books.does j (.sending q) ↔ q = p := by
    rw [heq]
    simp [Books.next, eq_comm]
  cases h with
  | stays eq =>
    rw [eq]
    exact hl
  | goesOn next s p issued input silent still care acts fades talks eq =>
    refine lined_of_idle hl (hidle silent) (hquiet still eq) ?_
    have hs : m'.session = s := congrArg Books.session eq
    rcases acts with rfl | ⟨a, ha, rfl⟩
    · rw [hs]
    · rw [hs, Session.errandsOf_of_quiet ha]
  | calls r receipt s p input silent free call care talks eq =>
    have hs : m'.session = s := congrArg Books.session eq
    refine lined_of_call (r := ⟨j, .command (r.command m.session.state.nextId)⟩) hl
      (hidle silent) (hbegins eq) ?_ (carries_of_call call care)
    rw [hs, Session.errandsOf_call? call]
  | forwards r f s p input silent free call care key slot talks eq =>
    have hs : m'.session = s := congrArg Books.session eq
    refine lined_of_call (r := ⟨j, .command (r.command m.session.state.nextId)⟩) hl
      (hidle silent) (hbegins eq) ?_ (carries_of_forward call care)
    rw [hs, Session.errandsOf_call? call]
  | acknowledges silent free eq =>
    have hs : m'.session = m.session.callAcknowledge j := congrArg Books.session eq
    refine lined_of_call (r := ⟨j, .acknowledgment⟩) hl (hidle silent) (hbegins eq) ?_ ?_
    · rw [hs]
      simp [Session.callAcknowledge, Session.Line.errandsOf]
    · rintro c id hc
      cases hc
  | puts p batch s own granted send eq =>
    have hs : m'.session = m.session.act e.reconnect.maxAttempts .proceed := by
      rw [show m'.session = s from congrArg Books.session eq]
      simp [Session.act, send]
    have herrands := Session.errandsOf_own (n := e.reconnect.maxAttempts)
      (show Session.Action.By m.session j .proceed from granted)
    rw [Session.leaves?_of_send send, ← hs] at herrands
    simp only [Session.joins?, Option.toList_none, List.nil_append, List.append_nil] at herrands
    have hdoes : m'.books.does = m.books.does := by rw [eq]
    refine ⟨fun q hq => ?_, fun hnone => herrands.trans (hl.none fun q hq => hnone q ?_)⟩
    · obtain ⟨r, hr, hcarries⟩ := hl.one q (hdoes ▸ hq)
      exact ⟨r, herrands.trans hr, hcarries⟩
    · rw [hdoes]
      exact hq
  | ends p a s next new held q own passes still plain hands failed fades talks resumes eq =>
    obtain ⟨b, r, hb, hby, hleaves, hjoins, -⟩ := passes.leaves e.reconnect.maxAttempts
    have hs : m'.session = s := congrArg Books.session eq
    obtain ⟨r', hr', -⟩ := hl.one p (hn.does_iff.mpr own)
    have herrands := Session.errandsOf_own (n := e.reconnect.maxAttempts) hby
    rw [hleaves, hjoins, ← hb, ← hs, show m.session.line.errandsOf j = [r'] from hr'] at herrands
    simp only [Option.toList_some, Option.toList_none, List.append_nil, List.cons_append,
      List.nil_append, List.cons.injEq] at herrands
    have hstill (p : Purpose) : ¬m'.books.does j (.sending p) := by
      rw [eq]
      simp only [Books.also, Books.next, if_true]
      rintro (rfl | hnew)
      · cases still
      · cases (plain _ hnew).1
    exact ⟨fun p hp => absurd hp (hstill p), fun _ => herrands.2⟩
  | settles c care plain silent outcome eq =>
    refine lined_of_idle hl (hidle silent) (hquiet rfl eq) ?_
    rw [show m'.session = m.session from congrArg Books.session eq]
  | forgets c id care silent poke eq =>
    refine lined_of_idle hl (hidle silent) (hquiet rfl eq) ?_
    rw [show m'.session = (m.session.forget id).2 from congrArg Books.session eq]
    rfl
  | concludes origin f t v own slot eq =>
    refine lined_of_idle hl (hidle (by rw [own]; rfl)) (hquiet rfl eq) ?_
    rw [show m'.session = m.session from congrArg Books.session eq]

/-- A poke whose sending has failed has been taken out of the table. -/
theorem withdrawn_of_passes (hl : m.books.Lined j) (hp : m.books.does j (.sending p)) {c : Care}
    {id : Nat} (hc : p.care? = some c) (hid : c.poke? = some id) {f : Session.Fault} {s : Session}
    (h : m.session.Passes j (.error f) s) : s.state.pokes.ticket? id = none := by
  obtain ⟨r, hr, hcarries⟩ := hl.one p hp
  obtain ⟨ship, app, mark, json, hfreight⟩ := hcarries c id hc hid
  obtain ⟨b, r', hb, hby, hleaves, hjoins, hwithdrawn⟩ := h.leaves 0
  have herrands := Session.errandsOf_own (n := 0) hby
  rw [hleaves, hjoins, show m.session.line.errandsOf j = [r] from hr] at herrands
  obtain rfl : r' = r := (List.cons.inj herrands).1
  obtain ⟨u, -, hs⟩ := hwithdrawn f _ rfl hfreight
  rw [hs]
  exact Session.ticket?_withdraw u

theorem Deed.lined_other (h : Deed e j m m') (hi : i ≠ j) (hl : m.books.Lined i) :
    m'.books.Lined i := by
  have hsends (p : Purpose) : m'.books.does i (.sending p) ↔ m.books.does i (.sending p) := by
    refine ⟨fun hp => ((h.others hi).2 hp).resolve_right ?_, (h.others hi).1⟩
    rintro ⟨hnone, -⟩
    cases hnone
  have herrands : m'.session.line.errandsOf i = m.session.line.errandsOf i := by
    rcases h.leads with hs | ⟨a, ha, hs⟩
    · rw [hs]
    · rw [hs, Session.errandsOf_act ha hi]
  refine ⟨fun p hp => ?_, fun hnone => ?_⟩
  · obtain ⟨r, hr, hcarries⟩ := hl.one p ((hsends p).mp hp)
    exact ⟨r, herrands.trans hr, hcarries⟩
  · exact herrands.trans (hl.none fun p hp => hnone p ((hsends p).mpr hp))

/-! ## Runs -/

theorem books_call (m : Machine) (n : Nat) (c : Call) :
    (∀ i t, (m.after e (.call n c)).books.does i t ↔ m.books.does i t ∨
      ((i, t) = (m.born, .start n c) ∧ t.isListed = true)) ∧
    (m.after e (.call n c)).books.held = m.books.held := by
  refine ⟨fun i t => ?_, rfl⟩
  change ((i, t) ∈ (m.spawn (.start n c)).jobs ∧ t.isListed = true) ↔ _
  rw [mem_spawn, or_and_right]
  rfl

/-- Nothing but a step of its own moves the errand of a job. -/
theorem errandsOf_after (hn : m.Numbered) {h : Happening} (hi : h ≠ .step i) :
    (m.after e h).session.line.errandsOf i = m.session.line.errandsOf i := by
  by_cases hstep : ∃ j, h = .step j
  · obtain ⟨j, rfl⟩ := hstep
    rcases (step_deed (e := e) hn j).leads with hs | ⟨a, ha, hs⟩
    · rw [after, hs]
    · rw [after, hs, Session.errandsOf_act ha fun h => hi (h ▸ rfl)]
  by_cases hcall : ∃ n c, h = .call n c
  · obtain ⟨n, c, rfl⟩ := hcall
    rfl
  · have hout := after_outside m (e := e) (fun j hj => hstep ⟨j, hj⟩)
      fun n c hc => hcall ⟨n, c, hc⟩
    rcases hout.acts with hs | ⟨n, a, ha, hs⟩
    · rw [hs]
    · rw [hs, Session.errandsOf_of_quiet ha]

theorem lined_after (hn : m.Numbered) (hl : ∀ i, m.books.Lined i) (h : Happening) (i : Nat) :
    (m.after e h).books.Lined i := by
  by_cases hstep : ∃ j, h = .step j
  · obtain ⟨j, rfl⟩ := hstep
    have hd := step_deed (e := e) hn j
    by_cases hi : i = j
    · subst hi
      exact hd.lined_own hn (hl i)
    · exact hd.lined_other hi (hl i)
  by_cases hcall : ∃ n c, h = .call n c
  · obtain ⟨n, c, rfl⟩ := hcall
    have hdoes (p : Purpose) : (m.after e (.call n c)).books.does i (.sending p) ↔
        m.books.does i (.sending p) := by
      rw [(books_call m n c).1]
      refine ⟨fun h => h.resolve_right ?_, .inl⟩
      rintro ⟨heq, -⟩
      cases (Prod.mk.inj heq).2
    exact ⟨fun p hp => (hl i).one p ((hdoes p).mp hp),
      fun hnone => (hl i).none fun p hp => hnone p ((hdoes p).mpr hp)⟩
  · have hout := after_outside m (e := e) (fun j hj => hstep ⟨j, hj⟩)
      fun n c hc => hcall ⟨n, c, hc⟩
    have herrands : (m.after e h).session.line.errandsOf i = m.session.line.errandsOf i :=
      errandsOf_after hn fun hi => hstep ⟨i, hi⟩
    refine ⟨fun p hp => ?_, fun hnone => herrands.trans ((hl i).none fun p hp => hnone p ?_)⟩
    · obtain ⟨r, hr, hcarries⟩ := (hl i).one p (hout.does ▸ hp)
      exact ⟨r, herrands.trans hr, hcarries⟩
    · rw [hout.does]
      exact hp

theorem lined_initial (i : Nat) : ({} : Machine).books.Lined i :=
  ⟨fun _ hp => absurd hp.1 List.not_mem_nil, fun _ => rfl⟩

/-- At every moment of a run each job has an errand on the line just as long as it is sending. -/
theorem lined_run (hs : List Happening) (i : Nat) : (run e {} hs).books.Lined i :=
  (run_induction (P := fun u => u.Orderly ∧ ∀ i, u.books.Lined i) ⟨orderly_initial, lined_initial⟩
    (fun _ h hu => ⟨hu.1.after h, lined_after hu.1.numbered hu.2 h⟩) hs).2 i

end Machine

end ShipBridge.Relay
