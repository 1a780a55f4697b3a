import ShipBridge.Proofs.Relay.SubscriptionSteps
import ShipBridge.Proofs.Relay.Updates

/-!
# The subscription and its successors

The bridge has one subscription to the ship's updates at a time. Each one before it has ended, and
whatever these have brought has been routed, in order. A diff clears the count of failures; without
one the bridge calls again at most as often as the policy allows, each time after the delay that the
policy gives for the count. It gives up when the session is closed or the count has reached the
limit, and then no request goes on waiting.
-/

namespace ShipBridge.Relay

open Session (Notice)
open Beat (given opened routed tries)

namespace Machine

section Definitions

variable (e : Surroundings)

/-- These subscriptions have ended. Those of them that had been opened brought just these diffs. -/
structure Past (s : Session) (tickets opened : List Nat) (updates : List Json) : Prop where
  lapsed : ∀ ticket ∈ tickets, s.Lapsed ticket
  among : ∀ ticket ∈ opened, ticket ∈ tickets
  distinct : opened.Nodup
  routed : updates = opened.flatMap s.mail

/-- Job `j` looks for the next attempt, and its step sets it to pause until `d`, for the delay that
the policy gives for `k`, counted from this step on. -/
structure Pauses (m : Machine) (k j : Nat) (backoff : Retry.Backoff) (d : Timer) : Prop where
  looks : ∃ earlier, m.task? j = some (.follow none earlier)
  due : ∃ delay, e.settings.resubscribe.drawn? k (e.factor m.timers) = some delay ∧
    d.due = m.now + delay.millisCeil
  pauses : (m.step e j).task? j = some (.pause backoff d)

/-- Job `j` was set to pause by one of the steps that the trail tells of. It has done so ever since,
and nothing has happened on behalf of the subscription. -/
def WaitsFor (tr : List (Machine × Happening)) (k j : Nat) (backoff : Retry.Backoff) (d : Timer) :
    Prop :=
  ∃ before q later, tr = before ++ (q, .step j) :: later ∧ Pauses e q k j backoff d ∧
    (∀ r ∈ later, r.1.task? j = some (.pause backoff d)) ∧ beats e tr = beats e before

/-- The footing that the subscription is on after what the trail tells, with the jobs that keep it
up. -/
inductive Footing (tr : List (Machine × Happening)) (m : Machine) : List (Nat × Task) → Prop
  | finished (past : Past m.session (given (beats e tr)) (opened (beats e tr)) (routed (beats e tr))) :
      Footing tr m []
  | begins {j caller} (first : beats e tr = []) : Footing tr m [(j, .start caller .serve)]
  | sends {j p ticket backoff id ship app path before}
      (renews : p.renews? = some (ticket, backoff))
      (count : backoff.failures = tries (beats e tr))
      (last : given (beats e tr) = before ++ [ticket]) (fresh : ticket ∉ before)
      (past : Past m.session before (opened (beats e tr)) (routed (beats e tr)))
      (holds : ∃ ns, m.session.Holds id ticket ns)
      (errand : m.session.line.errandsOf j = [⟨j, .command (.subscribe id ship app path)⟩]) :
      Footing tr m [(j, .sending p)]
  | follows {j ticket seen backoff id before} {os : List Nat} {updates : List Json}
      {ns : List Notice} (count : backoff.failures = tries (beats e tr))
      (last : given (beats e tr) = before ++ [ticket]) (fresh : ticket ∉ before)
      (current : opened (beats e tr) = os ++ [ticket]) (past : Past m.session before os updates)
      (holds : m.session.Holds id ticket ns) (some_ : seen ≤ ns.length)
      (heard : routed (beats e tr) = updates ++ (ns.take seen).filterMap Notice.diff?) :
      Footing tr m [(j, .follow (some (ticket, seen)) backoff)]
  | looks {j backoff} (count : backoff.failures = tries (beats e tr))
      (past : Past m.session (given (beats e tr)) (opened (beats e tr)) (routed (beats e tr))) :
      Footing tr m [(j, .follow none backoff)]
  | pauses {j backoff d} (count : backoff.failures = tries (beats e tr) + 1)
      (allowed : tries (beats e tr) < e.settings.resubscribe.maxAttempts)
      (past : Past m.session (given (beats e tr)) (opened (beats e tr)) (routed (beats e tr)))
      (waits : WaitsFor e tr (tries (beats e tr)) j backoff d) :
      Footing tr m [(j, .pause backoff d)]

variable (m : Machine)

/-- The diffs that have come to the subscription which a task follows, and which it has not taken
off yet. -/
def unreadBy : Task → List Json
  | .follow (some (ticket, seen)) _ =>
    ((m.session.state.subscriptions.mailbox ticket).notices.drop seen).filterMap Notice.diff?
  | _ => []

def unread : List Json := m.upkeep.flatMap fun p => m.unreadBy p.2

def Ends (a : Happening) : Prop := m.upkeep ≠ [] ∧ (m.after e a).upkeep = []

/-- After `k` calls since the last diff the subscription is found to be lost for good: the session
is closed, by its state or by the outcome of the last call, or the policy allows no further call. -/
inductive Quits (k : Nat) : Happening → Prop
  | looks {j backoff} (task : m.task? j = some (.follow none backoff))
      (lost : m.session.state.isClosed = true ∨ e.settings.resubscribe.maxAttempts ≤ k) :
      Quits k (.step j)
  | calls {j backoff d} (task : m.task? j = some (.pause backoff d)) (due : d.due ≤ m.now)
      (closed : m.session.state.isClosed = true) : Quits k (.step j)
  | fails {j ticket backoff} (task : m.task? j = some (.sending (.resubscribe ticket backoff)))
      (ready : m.ready e j = true) (ends : m.ending? = some (.error .closed)) : Quits k (.step j)

/-- A further call is allowed, but the policy's numbers give no delay for it. -/
def Breaks (k : Nat) (a : Happening) : Prop :=
  ∃ j backoff, a = .step j ∧ m.task? j = some (.follow none backoff) ∧
    m.session.state.isClosed = false ∧ k < e.settings.resubscribe.maxAttempts ∧
    e.settings.resubscribe.drawn? k (e.factor m.timers) = none

end Definitions

variable {e : Surroundings} {m m' : Machine} {tr : List (Machine × Happening)} {j : Nat} {t : Task}
  {s : Session} {tickets os : List Nat} {updates : List Json} {ticket : Nat}
  {next : List (Nat × Task)}

/-! ## What is past -/

theorem Past.nil (s : Session) : Past s [] [] [] :=
  ⟨fun _ h => absurd h List.not_mem_nil, fun _ h => h, List.nodup_nil, rfl⟩

theorem Past.add (h : Past s tickets os updates) (hl : s.Lapsed ticket) :
    Past s (tickets ++ [ticket]) os updates := by
  refine ⟨fun u hu => ?_, fun u hu => List.mem_append_left _ (h.among u hu), h.distinct, h.routed⟩
  rcases List.mem_append.mp hu with hu | hu
  · exact h.lapsed u hu
  · rwa [List.mem_singleton.mp hu]

theorem Past.distinct_concat (h : Past s tickets os updates) (hfresh : ticket ∉ tickets) :
    (os ++ [ticket]).Nodup := by
  refine List.nodup_append.mpr ⟨h.distinct, List.nodup_singleton ticket, fun u hu v hv => ?_⟩
  rw [List.mem_singleton.mp hv]
  rintro rfl
  exact hfresh (h.among u hu)

theorem Past.close (h : Past s tickets os updates) (hl : s.Lapsed ticket)
    (hfresh : ticket ∉ tickets) :
    Past s (tickets ++ [ticket]) (os ++ [ticket]) (updates ++ s.mail ticket) where
  lapsed := (h.add hl).lapsed
  among u hu := by
    rcases List.mem_append.mp hu with hu | hu
    · exact List.mem_append_left _ (h.among u hu)
    · exact List.mem_append_right _ hu
  distinct := h.distinct_concat hfresh
  routed := by
    rw [List.flatMap_append, h.routed, List.flatMap_singleton]

theorem Past.after (h : Past m.session tickets os updates) (a : Happening) :
    Past (m.after e a).session tickets os updates := by
  refine ⟨fun u hu => (lapsed_after (h.lapsed u hu) a).1, h.among, h.distinct, ?_⟩
  rw [h.routed]
  refine List.flatMap_congr fun u hu => ?_
  exact (lapsed_after (h.lapsed u (h.among u hu)) a).2.symm

/-! ## Pausing -/

theorem WaitsFor.begin {k : Nat} {backoff : Retry.Backoff} {d : Timer}
    (h : Pauses e m k j backoff d) (hbs : beats e (tr ++ [(m, .step j)]) = beats e tr) :
    WaitsFor e (tr ++ [(m, .step j)]) k j backoff d :=
  ⟨tr, m, [], rfl, h, List.forall_mem_nil _, hbs⟩

theorem WaitsFor.after {k : Nat} {backoff : Retry.Backoff} {d : Timer}
    (h : WaitsFor e tr k j backoff d) (ht : m.task? j = some (.pause backoff d)) {a : Happening}
    (hbs : beats e (tr ++ [(m, a)]) = beats e tr) :
    WaitsFor e (tr ++ [(m, a)]) k j backoff d := by
  obtain ⟨before, q, later, rfl, hpauses, hlater, hbefore⟩ := h
  refine ⟨before, q, later ++ [(m, a)], ?_, hpauses, fun r hr => ?_, hbs.trans hbefore⟩
  · rw [List.append_assoc, List.cons_append]
  · rcases List.mem_append.mp hr with hr | hr
    · exact hlater r hr
    · rwa [List.mem_singleton.mp hr]

/-! ## From footing to footing -/

theorem Footing.after {js : List (Nat × Task)} (h : Footing e tr m js)
    (hs : m.session.state.subscriptions.Sound) (htasks : ∀ p ∈ js, m.task? p.1 = some p.2)
    {a : Happening} (hbeat : m.beat? e a = none)
    (hdrop : ∀ ticket ∈ given (beats e tr), a ≠ .dropSubscription ticket)
    (herrands : ∀ p ∈ js, (m.after e a).session.line.errandsOf p.1 =
      m.session.line.errandsOf p.1) : Footing e (tr ++ [(m, a)]) (m.after e a) js := by
  have hbs : beats e (tr ++ [(m, a)]) = beats e tr := beats_concat_of_none _ hbeat
  cases h with
  | finished past => exact .finished (hbs ▸ past.after a)
  | begins first => exact .begins (hbs.trans first)
  | sends renews count last fresh past holds errand =>
    obtain ⟨ns, hns⟩ := holds
    obtain ⟨more, hmore⟩ := holds_after hns hs (hdrop _ (by simp [last]))
    have herrand := (herrands _ List.mem_cons_self).trans errand
    exact .sends renews (hbs ▸ count) (hbs ▸ last) fresh (hbs ▸ past.after a) ⟨_, hmore⟩ herrand
  | follows count last fresh current past holds some_ heard =>
    obtain ⟨more, hmore⟩ := holds_after holds hs (hdrop _ (by simp [last]))
    refine .follows (hbs ▸ count) (hbs ▸ last) fresh (hbs ▸ current) (past.after a) hmore ?_ ?_
    · rw [List.length_append]
      omega
    · rw [hbs, heard, List.take_append_of_le_length some_]
  | looks count past => exact .looks (hbs ▸ count) (hbs ▸ past.after a)
  | pauses count allowed past waits =>
    refine .pauses (hbs ▸ count) (hbs ▸ allowed) (hbs ▸ past.after a) ?_
    rw [hbs]
    exact waits.after (htasks _ List.mem_cons_self) hbs

/-! ## The footing after a chore -/

theorem Footing.of_call (h : Footing e tr m [(j, t)]) (hn : m.Numbered) (hl : m.books.Lined j)
    (ht : m.task? j = some t) {again : Bool} {backoff : Retry.Backoff} {id : Nat} {p : Purpose}
    (seeks : t.seeks? = some (again, backoff))
    (call : m.session.call? j (subscription e) =
      some (.subscription id ticket, (m.step e j).session))
    (renews : p.renews? = some (ticket, backoff))
    (hbeat : m.beat? e (.step j) = some (.calls again (some ticket))) :
    Footing e (tr ++ [(m, .step j)]) (m.step e j) [(j, .sending p)] := by
  have hbs := beats_concat tr hbeat
  have hidle : m.session.line.errandsOf j = [] := hl.none fun p hp => by
    rw [hn.task?_of_mem hp.1] at ht
    rw [← Option.some.inj ht] at seeks
    cases seeks
  obtain ⟨hreceipt, hholds⟩ := Session.holds_of_call call
  obtain ⟨rfl, hticket⟩ := Session.Receipt.subscription.inj hreceipt
  rw [← hticket] at hholds
  have herrand := Session.errandsOf_call? call
  rw [hidle, List.nil_append] at herrand
  have hbefore : Past m.session (given (beats e tr)) (opened (beats e tr)) (routed (beats e tr)) ∧
      backoff.failures = (Beat.calls again (some ticket)).count (tries (beats e tr)) := by
    cases h with
    | begins first =>
      obtain ⟨rfl, rfl⟩ := Prod.mk.inj (Option.some.inj seeks)
      rw [first]
      exact ⟨.nil _, rfl⟩
    | pauses count allowed past waits =>
      obtain ⟨rfl, rfl⟩ := Prod.mk.inj (Option.some.inj seeks)
      exact ⟨past, count⟩
    | _ => cases seeks
  obtain ⟨past, count⟩ := hbefore
  have hnew : ticket ∉ given (beats e tr) := fun hmem =>
    Nat.ne_of_lt (past.lapsed _ hmem).ticket_lt hticket
  have hpast : Past (m.step e j).session _ _ _ := past.after (.step j)
  have hlast : given (beats e (tr ++ [(m, .step j)])) = given (beats e tr) ++ [ticket] := by
    rw [hbs, Beat.given_concat]
    rfl
  refine .sends renews ?_ hlast hnew ?_ ⟨[], hholds⟩ herrand
  · rw [hbs, Beat.tries_concat, count]
  · simpa [hbs] using hpast

section Sending

variable {p : Purpose} {backoff : Retry.Backoff} (h : Footing e tr m [(j, .sending p)])
  (hs : m.session.state.subscriptions.Sound) (renews : p.renews? = some (ticket, backoff))

include h hs renews

theorem Footing.of_opening (hbeat : m.beat? e (.step j) = some (.opens ticket)) (k : Nat) :
    Footing e (tr ++ [(m, .step j)]) (m.step e j) [(k, .follow (some (ticket, 0)) backoff)] := by
  have hbs := beats_concat tr hbeat
  cases h with
  | sends renews' count last fresh past holds errand =>
    obtain ⟨rfl, rfl⟩ := Prod.mk.inj (Option.some.inj (renews.symm.trans renews'))
    obtain ⟨ns, hns⟩ := holds
    obtain ⟨more, hmore⟩ := holds_after (e := e) hns hs (h := .step j) fun h => by cases h
    have hpast : Past (m.step e j).session _ _ _ := past.after (.step j)
    refine .follows ?_ ?_ fresh ?_ hpast hmore (Nat.zero_le _) ?_
    · simpa [hbs] using count
    · simpa [hbs] using last
    · simp [hbs]
    · simp [hbs]

theorem Footing.of_failure {f : Session.Fault}
    (passes : m.session.Passes j (.error f) (m.step e j).session) :
    Past (m.step e j).session (given (beats e tr)) (opened (beats e tr)) (routed (beats e tr)) ∧
      backoff.failures = tries (beats e tr) := by
  cases h with
  | sends renews' count last fresh past holds errand =>
    obtain ⟨rfl, rfl⟩ := Prod.mk.inj (Option.some.inj (renews.symm.trans renews'))
    obtain ⟨ns, hns⟩ := holds
    have hpast : Past (m.step e j).session _ _ _ := past.after (.step j)
    rw [last]
    exact ⟨hpast.add (hns.lapsed_of_passes hs passes errand).1, count⟩

end Sending

section Following

variable {seen : Nat} {backoff : Retry.Backoff}
  (h : Footing e tr m [(j, .follow (some (ticket, seen)) backoff)])

include h

theorem Footing.of_notice (hs : m.session.state.subscriptions.Sound) {notice : Notice}
    (next : (m.session.state.subscriptions.mailbox ticket).notices[seen]? = some notice)
    (hbeat : m.beat? e (.step j) = some (.hears notice)) :
    Footing e (tr ++ [(m, .step j)]) (m.step e j) [(j, .follow (some (ticket, seen + 1))
      (if notice.diff?.isSome then {} else backoff))] := by
  have hbs := beats_concat tr hbeat
  cases h with
  | follows count last fresh current past holds some_ heard =>
    rw [holds.yields.notices] at next
    obtain ⟨hlt, hget⟩ := List.getElem?_eq_some_iff.mp next
    obtain ⟨more, hmore⟩ := holds_after (e := e) holds hs (h := .step j) fun h => by cases h
    have hpast : Past (m.step e j).session _ _ _ := past.after (.step j)
    refine .follows ?_ ?_ fresh ?_ hpast hmore ?_ ?_
    · cases notice <;> simp [hbs, Notice.diff?, count]
    · simpa [hbs] using last
    · simpa [hbs] using current
    · rw [List.length_append]
      omega
    · rw [hbs, Beat.routed_concat, heard, List.take_append_of_le_length hlt,
        List.take_succ_eq_append_getElem hlt, hget, filterMap_concat, List.append_assoc]
      rfl

theorem Footing.of_end
    (silent : (m.session.state.subscriptions.mailbox ticket).notices[seen]? = none)
    (detached : (m.session.state.subscriptions.mailbox ticket).attached = false)
    (hbeat : m.beat? e (.step j) = none) :
    Footing e (tr ++ [(m, .step j)]) (m.step e j) [(j, .follow none backoff)] := by
  have hbs := beats_concat_of_none tr hbeat
  cases h with
  | follows count last fresh current past holds some_ heard =>
    rw [holds.yields.notices, List.getElem?_eq_none_iff] at silent
    have hclosed := (past.close (holds.lapsed detached) fresh).after (e := e) (.step j)
    rw [holds.mail, ← last, ← current] at hclosed
    rw [List.take_of_length_le silent] at heard
    rw [← heard] at hclosed
    exact .looks (hbs ▸ count) (hbs ▸ hclosed)

end Following

theorem Footing.of_chore (h : Footing e tr m [(j, t)]) (hn : m.Numbered) (hl : m.books.Lined j)
    (hs : m.session.state.subscriptions.Sound) (ht : m.task? j = some t) {b? : Option Beat}
    (hbeat : m.beat? e (.step j) = b?) (hnext : (m.step e j).upkeep = next)
    (hc : Chore e j m (m.step e j) t b? next) :
    Footing e (tr ++ [(m, .step j)]) (m.step e j) next := by
  have hover (hbs : beats e (tr ++ [(m, .step j)]) = beats e tr)
      (past : Past m.session (given (beats e tr)) (opened (beats e tr)) (routed (beats e tr))) :
      Footing e (tr ++ [(m, .step j)]) (m.step e j) [] := by
    have hpast : Past (m.step e j).session _ _ _ := past.after (.step j)
    exact .finished (by rwa [hbs])
  cases hc with
  | calls seeks call renews => exact h.of_call hn hl ht seeks call renews hbeat
  | servesClosed =>
    have hbs := beats_concat tr hbeat
    cases h with
    | begins first =>
      rw [first] at hbs
      exact .looks (by rw [hbs]; rfl) (by rw [hbs]; exact .nil _)
  | callsClosed closed fails =>
    have hbs := beats_concat tr hbeat
    cases h with
    | pauses count allowed past waits =>
      have hpast : Past (m.step e j).session _ _ _ := past.after (.step j)
      exact .finished (by simpa [hbs] using hpast)
  | puts renews hputs =>
    obtain ⟨batch, hput, -⟩ := hputs.put
    refine h.after hs (fun p hp => ?_) hbeat (fun _ _ hdrop => by cases hdrop) fun p hp => ?_
    · rwa [List.mem_singleton.mp hp]
    · exact Session.errandsOf_of_send hput p.1
  | opens renews ends => exact h.of_opening hs renews hbeat _
  | fails renews ends passes stays =>
    have hbs := beats_concat_of_none tr hbeat
    obtain ⟨past, count⟩ := h.of_failure hs renews passes
    exact .looks (hbs ▸ count) (hbs ▸ past)
  | failsClosed ends passes fails =>
    have hbs := beats_concat_of_none tr hbeat
    exact .finished (hbs ▸ (h.of_failure hs rfl passes).1)
  | hears next => exact h.of_notice hs next hbeat
  | ends silent detached => exact h.of_end silent detached hbeat
  | pauses isOpen allowed drawn due =>
    have hbs := beats_concat_of_none tr hbeat
    cases h with
    | looks count past =>
      have hn' : (m.step e j).Numbered := (step_effect hn j).onward.numbered hn
      have hpaused := task?_of_upkeep hn' (hnext ▸ List.mem_singleton_self _)
      rw [count] at allowed drawn
      refine .pauses ?_ (hbs ▸ allowed) (hbs ▸ past.after (e := e) (.step j)) ?_
      · rw [hbs, count]
      · rw [hbs]
        exact .begin ⟨⟨_, ht⟩, ⟨_, drawn, due⟩, hpaused⟩ hbs
  | abandons lost fails =>
    cases h with
    | looks count past => exact hover (beats_concat_of_none _ hbeat) past
  | breaks isOpen allowed drawn =>
    cases h with
    | looks count past => exact hover (beats_concat_of_none _ hbeat) past

theorem Footing.sole {js : List (Nat × Task)} (h : Footing e tr m js) (hmem : (j, t) ∈ js) :
    js = [(j, t)] := by
  cases h with
  | finished => cases hmem
  | _ => rw [List.mem_singleton.mp hmem]

/-- Only the end of a pause calls for the subscription again, and a pause is allowed by the
policy. -/
theorem Footing.tries_le (h : Footing e tr m [(j, t)])
    (hle : tries (beats e tr) ≤ e.settings.resubscribe.maxAttempts) {b : Beat}
    (hb : m.beatOf? t = some b) :
    b.count (tries (beats e tr)) ≤ e.settings.resubscribe.maxAttempts := by
  have hmost {notice : Notice} :
      (Beat.hears notice).count (tries (beats e tr)) ≤ tries (beats e tr) := by
    cases notice <;> simp
  cases h with
  | begins first =>
    rw [← Option.some.inj hb]
    exact hle
  | sends renews =>
    simp only [beatOf?, renews, Option.bind_some] at hb
    split at hb
    · rw [← Option.some.inj hb]
      exact hle
    · cases hb
  | follows =>
    obtain ⟨notice, -, rfl⟩ := Option.map_eq_some_iff.mp hb
    exact Nat.le_trans hmost hle
  | looks => cases hb
  | pauses count allowed past waits =>
    rw [← Option.some.inj hb]
    exact allowed

/-! ## Every run -/

/-- The subscription is on the footing that the trail tells of, and the policy's limit is kept. -/
structure Upheld (e : Surroundings) (tr : List (Machine × Happening)) (m : Machine) : Prop where
  footing : Footing e tr m m.upkeep
  limit : tries (beats e tr) ≤ e.settings.resubscribe.maxAttempts
  unserved : (∀ q ∈ tr, q.2.serves = false) → m.upkeep = [] ∧ beats e tr = []

theorem idle_after (hn : m.Numbered) {a : Happening} (hserve : a.serves = false)
    (hidle : ∀ j t, a = .step j → (j, t) ∈ m.upkeep → ¬m.readyTask e j t = true) :
    (m.after e a).upkeep = m.upkeep ∧ m.beat? e a = none ∧ ∀ p ∈ m.upkeep,
      (m.after e a).session.line.errandsOf p.1 = m.session.line.errandsOf p.1 := by
  by_cases hown : ∃ j t, a = .step j ∧ (j, t) ∈ m.upkeep
  · obtain ⟨j, t, rfl, hmem⟩ := hown
    have ht := task?_of_upkeep hn hmem
    have hready := hidle j t rfl hmem
    rw [after, step_of_not_ready ht hready]
    exact ⟨rfl, beat?_of_not_ready ht hready, fun _ _ => rfl⟩
  · have hstep : ∀ j, a = .step j → ∀ t, (j, t) ∉ m.upkeep := fun j ha t hmem =>
      hown ⟨j, t, ha, hmem⟩
    obtain ⟨hup, hbeat⟩ := upkeep_after (e := e) hn hserve hstep
    exact ⟨hup, hbeat, fun p hp => errandsOf_after hn fun ha => hstep p.1 ha p.2 hp⟩

theorem Upheld.after (h : Upheld e tr m) (hn : m.Numbered) (hl : ∀ j, m.books.Lined j)
    (hs : m.session.state.subscriptions.Sound) {a : Happening}
    (hserve : a.serves = true → ∀ q ∈ tr, q.2.serves = false)
    (hdrop : ∀ ticket ∈ given (beats e tr), a ≠ .dropSubscription ticket) :
    Upheld e (tr ++ [(m, a)]) (m.after e a) := by
  by_cases hserves : a.serves = true
  · obtain ⟨hup, hbs⟩ := h.unserved (hserve hserves)
    obtain ⟨caller, rfl⟩ : ∃ caller, a = .call caller .serve := by
      cases a with
      | call caller c =>
        cases c with
        | serve => exact ⟨caller, rfl⟩
        | _ => cases hserves
      | _ => cases hserves
    have hbs' : beats e (tr ++ [(m, .call caller .serve)]) = [] :=
      (beats_concat_of_none _ rfl).trans hbs
    have hup' : (m.after e (.call caller .serve)).upkeep = [(m.born, .start caller .serve)] := by
      rw [upkeep] at hup
      simp only [Machine.after, spawn, upkeep, List.filter_append, hup, List.nil_append]
      rfl
    refine ⟨hup' ▸ .begins hbs', ?_, fun hnone => ?_⟩
    · rw [hbs']
      exact Nat.zero_le _
    · have hself := hnone _ (List.mem_append_right _ List.mem_cons_self)
      cases hself
  · have hserve' : a.serves = false := by simpa using hserves
    have hearlier (hnone : ∀ q ∈ tr ++ [(m, a)], q.2.serves = false) :
        m.upkeep = [] ∧ beats e tr = [] :=
      h.unserved fun q hq => hnone q (List.mem_append_left _ hq)
    by_cases hown : ∃ j t, a = .step j ∧ (j, t) ∈ m.upkeep ∧ m.readyTask e j t = true
    · obtain ⟨j, t, rfl, hmem, hready⟩ := hown
      have hup := h.footing.sole hmem
      have ht := task?_of_upkeep hn hmem
      have hfooting := h.footing
      rw [hup] at hfooting
      have hbeat := beat?_step ht hready
      have hchore := chore hn hup hready
      refine ⟨hfooting.of_chore hn (hl j) hs ht hbeat rfl hchore, ?_, fun hnone => ?_⟩
      · cases hb : m.beatOf? t with
        | none =>
          rw [beats_concat_of_none _ (hbeat.trans hb)]
          exact h.limit
        | some b =>
          rw [beats_concat _ (hbeat.trans hb), Beat.tries_concat]
          exact hfooting.tries_le h.limit hb
      · have hnone' := (hearlier hnone).1
        rw [hup] at hnone'
        cases hnone'
    · obtain ⟨hup, hbeat, herrands⟩ := idle_after (e := e) hn hserve' fun j t ha hmem hready =>
        hown ⟨j, t, ha, hmem, hready⟩
      have hbs := beats_concat_of_none tr hbeat
      have hfooting := h.footing.after hs (fun _ => task?_of_upkeep hn) hbeat hdrop herrands
      refine ⟨hup ▸ hfooting, hbs ▸ h.limit, fun hnone => ?_⟩
      rw [hup, hbs]
      exact hearlier hnone

theorem given_append {us : List (Machine × Happening)} (h : ticket ∈ given (beats e tr)) :
    ticket ∈ given (beats e (tr ++ us)) := by
  rw [beats, List.filterMap_append, given, List.filterMap_append]
  exact List.mem_append_left _ h

theorem subscriptions_sound_run (hs : List Happening) :
    (run e {} hs).session.state.subscriptions.Sound :=
  run_induction (P := fun u => u.session.state.subscriptions.Sound)
    Session.sound_initial.subscriptions (fun _ _ hu => subscriptions_sound_after hu) hs

theorem upheld_run {hs : List Happening} (hserve : hs.countP Happening.serves ≤ 1)
    (hdrop : ∀ ticket ∈ given (beats e (trail e {} hs)), .dropSubscription ticket ∉ hs) :
    Upheld e (trail e {} hs) (run e {} hs) := by
  induction hs using List.reverseRecOn with
  | nil => exact ⟨.finished (.nil _), Nat.zero_le _, fun _ => ⟨rfl, rfl⟩⟩
  | append_singleton hs a ih =>
    rw [List.countP_append] at hserve
    rw [trail_append] at hdrop ⊢
    have hdrop' : ∀ ticket ∈ given (beats e (trail e {} hs)),
        .dropSubscription ticket ∉ hs ++ [a] := fun ticket hticket =>
      hdrop ticket (given_append hticket)
    have hbefore := ih (Nat.le_of_add_right_le hserve) fun ticket hticket hmem =>
      hdrop' ticket hticket (List.mem_append_left _ hmem)
    rw [run_append]
    refine hbefore.after (orderly_initial.run hs).numbered (lined_run hs)
      (subscriptions_sound_run hs) (fun ha q hq => ?_) fun ticket hticket ha => ?_
    · rw [List.countP_singleton, if_pos ha] at hserve
      have hnone := List.countP_eq_zero.mp (show hs.countP Happening.serves = 0 by omega)
      simpa using hnone q.2 (mem_of_mem_trail hq)
    · exact hdrop' ticket hticket (List.mem_append_right _ (ha ▸ List.mem_cons_self))

/-! ## What the footing tells -/

/-- Of the tickets that have been given out all but one, at most, are of subscriptions that have
ended. -/
theorem Footing.lapsed {js : List (Nat × Task)} (h : Footing e tr m js) :
    ∃ current, ∀ ticket ∈ given (beats e tr), ticket = current ∨ m.session.Lapsed ticket := by
  cases h with
  | finished past | looks count past | pauses count allowed past waits =>
    exact ⟨0, fun ticket hticket => .inr (past.lapsed ticket hticket)⟩
  | begins first =>
    rw [first]
    exact ⟨0, fun ticket hticket => absurd hticket List.not_mem_nil⟩
  | sends renews count last fresh past | follows count last fresh current past =>
    rw [last]
    exact ⟨_, fun ticket hticket =>
      (List.mem_append.mp hticket).symm.imp List.mem_singleton.mp (past.lapsed ticket)⟩

/-- One open subscription at most has been called for by the bridge. -/
theorem Footing.single {js : List (Nat × Task)} (h : Footing e tr m js)
    (hs : m.session.state.subscriptions.Sound) :
    (m.session.state.subscriptions.entries.filter
      fun p => p.2.ticket ∈ given (beats e tr)).length ≤ 1 := by
  obtain ⟨current, hcurrent⟩ := h.lapsed
  have hsame : ∀ ticket ∈ (m.session.state.subscriptions.entries.filter
      fun p => p.2.ticket ∈ given (beats e tr)).map (fun p => p.2.ticket), ticket = current := by
    intro ticket hticket
    obtain ⟨p, hp, rfl⟩ := List.mem_map.mp hticket
    obtain ⟨hmem, hgiven⟩ := List.mem_filter.mp hp
    exact (hcurrent _ (by simpa using hgiven)).resolve_right fun hlapsed => hlapsed.free hmem rfl
  have hnodup := hs.tickets.sublist (List.filter_sublist (p := fun p : Nat × Session.Entry =>
    p.2.ticket ∈ given (beats e tr)) |>.map fun p => p.2.ticket)
  rw [List.eq_replicate_of_mem hsame, List.nodup_replicate, List.length_map] at hnodup
  exact hnodup

/-- All diffs of the subscriptions that have been opened have been routed, but those that the job
has still to take off the last one. -/
theorem Footing.routed {js : List (Nat × Task)} (h : Footing e tr m js) :
    (opened (beats e tr)).Nodup ∧
      routed (beats e tr) ++ js.flatMap (fun p => m.unreadBy p.2) =
        (opened (beats e tr)).flatMap m.session.mail := by
  cases h with
  | finished past | looks count past | pauses count allowed past waits
  | sends renews count last fresh past =>
    exact ⟨past.distinct, (List.append_nil _).trans past.routed⟩
  | begins first =>
    rw [first]
    exact ⟨List.nodup_nil, rfl⟩
  | follows count last fresh current past holds some_ heard =>
    rw [current, heard]
    refine ⟨past.distinct_concat fresh, ?_⟩
    rw [List.flatMap_append, ← past.routed, List.flatMap_singleton, List.flatMap_singleton,
      unreadBy, holds.yields.notices, holds.mail, List.append_assoc, ← List.filterMap_append,
      List.take_append_drop]

theorem Footing.waits {js : List (Nat × Task)} (h : Footing e tr m js) {backoff : Retry.Backoff}
    {d : Timer} (hmem : (j, .pause backoff d) ∈ js) :
    WaitsFor e tr (tries (beats e tr)) j backoff d := by
  rw [h.sole hmem] at h
  cases h with
  | pauses count allowed past waits => exact waits

theorem hears_of_unread (hn : m.Numbered) (h : m.unread ≠ []) :
    ∃ j notice, m.ready e j = true ∧ m.beat? e (.step j) = some (.hears notice) := by
  obtain ⟨⟨j, t⟩, hmem, hunread⟩ : ∃ p ∈ m.upkeep, m.unreadBy p.2 ≠ [] := by
    by_contra hnone
    push Not at hnone
    exact h (List.flatMap_eq_nil_iff.mpr hnone)
  have ht := task?_of_upkeep hn hmem
  cases t with
  | follow current backoff =>
    cases current with
    | none => exact absurd rfl hunread
    | some q =>
      obtain ⟨ticket, seen⟩ := q
      have hlt : seen < (m.session.state.subscriptions.mailbox ticket).notices.length := by
        by_contra hle
        rw [unreadBy, List.drop_of_length_le (Nat.not_lt.mp hle)] at hunread
        exact hunread rfl
      have hready : m.readyTask e j (.follow (some (ticket, seen)) backoff) = true := by
        simp [readyTask, hlt]
      refine ⟨j, (m.session.state.subscriptions.mailbox ticket).notices[seen], ?_, ?_⟩
      · rw [ready, ht, Option.any_some, hready]
      · rw [beat?_step ht hready, beatOf?, List.getElem?_eq_getElem hlt, Option.map_some]
  | _ => exact absurd rfl hunread

theorem routes_of_hears {update : Json}
    (h : m.beat? e (.step j) = some (.hears (.diff update))) :
    ∃ t, m.step e j = (m.route update).become j t := by
  obtain ⟨t, ht, hready, hbeat⟩ := task_of_beat h
  obtain ⟨ticket, seen, backoff, rfl, hnotice⟩ := follow_of_hears hbeat
  refine ⟨.follow (some (ticket, seen + 1)) {}, ?_⟩
  rw [step_of_ready ht hready]
  simp only [stepTask, stepFollow, hnotice]

theorem due_of_calls {ticket? : Option Nat}
    (h : m.beat? e (.step j) = some (.calls true ticket?)) :
    ∃ backoff d, m.task? j = some (.pause backoff d) ∧ d.due ≤ m.now := by
  obtain ⟨t, ht, hready, hbeat⟩ := task_of_beat h
  obtain ⟨backoff, d, rfl⟩ := pause_of_calls hbeat
  exact ⟨backoff, d, ht, by simpa [readyTask, isDue] using hready⟩

/-! ## The end -/

section Ending

variable (h : Upheld e tr m) (hn : m.Numbered)

include h hn

/-- A job of the strand is the only one, and each of its steps is a chore. -/
theorem Upheld.chore (ht : m.task? j = some t) (hs : t.strand = .subscription)
    (hready : m.readyTask e j t = true) : Footing e tr m [(j, t)] ∧ m.upkeep = [(j, t)] ∧
      Chore e j m (m.step e j) t (m.beatOf? t) (m.step e j).upkeep := by
  have hup := h.footing.sole (mem_upkeep.mpr ⟨mem_of_task? ht, hs⟩)
  exact ⟨hup ▸ h.footing, hup, Machine.chore hn hup hready⟩

theorem Upheld.of_looks {backoff : Retry.Backoff} (ht : m.task? j = some (.follow none backoff))
    (hlost : m.session.state.isClosed = true ∨
      e.settings.resubscribe.maxAttempts ≤ tries (beats e tr)) :
    m.Ends e (.step j) ∧ (m.step e j).pending = m.pending.failAll .subscriptionLost := by
  obtain ⟨hfooting, hup, hc⟩ := h.chore hn ht rfl rfl
  have hcount : backoff.failures = tries (beats e tr) := by
    cases hfooting with
    | looks count past => exact count
  rw [← hcount] at hlost
  have hlast (isOpen : m.session.state.isClosed = false)
      (allowed : backoff.failures < e.settings.resubscribe.maxAttempts) : False := by
    rcases hlost with hclosed | hle
    · rw [isOpen] at hclosed
      cases hclosed
    · omega
  rw [Ends, hup, Machine.after]
  generalize (m.step e j).upkeep = next at hc ⊢
  cases hc with
  | pauses isOpen allowed drawn due => exact (hlast isOpen allowed).elim
  | abandons lost fails => exact ⟨⟨List.cons_ne_nil _ _, rfl⟩, fails⟩
  | breaks isOpen allowed drawn => exact (hlast isOpen allowed).elim

theorem Upheld.of_refusal {backoff : Retry.Backoff} {d : Timer}
    (ht : m.task? j = some (.pause backoff d)) (hdue : d.due ≤ m.now)
    (hclosed : m.session.state.isClosed = true) :
    m.Ends e (.step j) ∧ (m.step e j).pending = m.pending.failAll .subscriptionLost := by
  have hready : m.readyTask e j (.pause backoff d) = true := by simp [readyTask, isDue, hdue]
  obtain ⟨-, hup, hc⟩ := h.chore hn ht rfl hready
  rw [Ends, hup, Machine.after]
  generalize (m.step e j).upkeep = next at hc ⊢
  generalize m.beatOf? (.pause backoff d) = b? at hc
  cases hc with
  | calls seeks call renews =>
    obtain ⟨-, hopen, -⟩ := Session.call?_eq_some (n := 0) call
    rw [hclosed] at hopen
    cases hopen
  | callsClosed closed fails => exact ⟨⟨List.cons_ne_nil _ _, rfl⟩, fails⟩

theorem Upheld.of_closed {backoff : Retry.Backoff}
    (ht : m.task? j = some (.sending (.resubscribe ticket backoff))) (hready : m.ready e j = true)
    (hend : m.ending? = some (.error .closed)) :
    m.Ends e (.step j) ∧ (m.step e j).pending = m.pending.failAll .subscriptionLost := by
  rw [ready, ht, Option.any_some] at hready
  obtain ⟨-, hup, hc⟩ := h.chore hn ht rfl hready
  rw [Ends, hup, Machine.after]
  generalize (m.step e j).upkeep = next at hc ⊢
  generalize m.beatOf? (.sending (.resubscribe ticket backoff)) = b? at hc
  cases hc with
  | calls seeks => cases seeks
  | puts renews hputs =>
    rw [hputs.goesOn] at hend
    cases hend
  | opens renews ends =>
    rw [ends] at hend
    cases hend
  | fails renews ends passes stays =>
    rw [ends] at hend
    obtain ⟨rfl, rfl⟩ := Prod.mk.inj (Option.some.inj renews)
    exact absurd rfl (stays (Except.error.inj (Option.some.inj hend)))
  | failsClosed ends passes fails => exact ⟨⟨List.cons_ne_nil _ _, rfl⟩, fails⟩

theorem Upheld.discreet (hmem : (j, t) ∈ m.upkeep)
    (hunheard : ∀ update, m.beat? e (.step j) ≠ some (.hears (.diff update))) :
    Discreet m (m.step e j) ∨ m.Ends e (.step j) ∧ Discreet m.failPending (m.step e j) := by
  have ht := task?_of_upkeep hn hmem
  by_cases hready : m.readyTask e j t = true
  · rw [beat?_step ht hready] at hunheard
    refine (discreet_of_unheard hn (h.footing.sole hmem) hready hunheard).imp_right fun hend => ?_
    exact ⟨⟨List.ne_nil_of_mem hmem, hend.1⟩, hend.2⟩
  · rw [step_of_not_ready ht hready]
    exact .inl (.refl m)

theorem Upheld.pauses {backoff : Retry.Backoff} (ht : m.task? j = some (.follow none backoff))
    (hgoes : ¬m.Ends e (.step j)) :
    ∃ d, Pauses e m (tries (beats e tr)) j ⟨tries (beats e tr) + 1⟩ d := by
  obtain ⟨hfooting, hup, hc⟩ := h.chore hn ht rfl rfl
  have hcount : backoff.failures = tries (beats e tr) := by
    cases hfooting with
    | looks count past => exact count
  have hsome : m.upkeep ≠ [] := by simp [hup]
  have hn' : (m.step e j).Numbered := (step_effect hn j).onward.numbered hn
  generalize hnext : (m.step e j).upkeep = next at hc
  cases hc with
  | @pauses _ delay d isOpen allowed drawn due =>
    rw [hcount] at drawn hnext
    exact ⟨d, ⟨_, ht⟩, ⟨delay, drawn, due⟩,
      task?_of_upkeep hn' (hnext ▸ List.mem_singleton_self _)⟩
  | abandons => exact absurd ⟨hsome, hnext⟩ hgoes
  | breaks => exact absurd ⟨hsome, hnext⟩ hgoes

omit hn in
/-- While the job pauses nothing happens on behalf of the subscription until the job calls for it,
once the moment has come. -/
theorem Upheld.beat?_of_pause {backoff : Retry.Backoff} {d : Timer}
    (ht : m.task? j = some (.pause backoff d)) (a : Happening) (b : Beat) :
    m.beat? e a = some b ↔ a = .step j ∧ d.due ≤ m.now ∧ b = .calls true m.nextTicket? := by
  have hready : m.readyTask e j (.pause backoff d) = true ↔ d.due ≤ m.now := by
    simp [readyTask, isDue]
  have hbeat : m.beatOf? (.pause backoff d) = some (.calls true m.nextTicket?) := rfl
  constructor
  · intro hb
    obtain ⟨i, rfl⟩ : ∃ i, a = .step i := by
      cases a with
      | step i => exact ⟨i, rfl⟩
      | _ => cases hb
    obtain ⟨t, hti, hreadyi, hbi⟩ := task_of_beat hb
    have hstrand : t.strand = .subscription := by
      by_contra hs
      rw [beatOf?_of_strand hs] at hbi
      cases hbi
    have hsole := h.footing.sole (mem_upkeep.mpr ⟨mem_of_task? hti, hstrand⟩)
    have hmem : (j, Task.pause backoff d) ∈ m.upkeep := mem_upkeep.mpr ⟨mem_of_task? ht, rfl⟩
    rw [hsole, List.mem_singleton] at hmem
    obtain ⟨rfl, rfl⟩ := Prod.mk.inj hmem
    exact ⟨rfl, hready.mp hreadyi, Option.some.inj (hbi.symm.trans hbeat)⟩
  · rintro ⟨rfl, hdue, rfl⟩
    rw [beat?_step ht (hready.mpr hdue), hbeat]

theorem Upheld.of_quits {a : Happening} (hq : m.Quits e (tries (beats e tr)) a) :
    m.Ends e a ∧ (m.after e a).pending = m.pending.failAll .subscriptionLost := by
  cases hq with
  | looks task lost => exact h.of_looks hn task lost
  | calls task due closed => exact h.of_refusal hn task due closed
  | fails task ready ends => exact h.of_closed hn task ready ends

theorem Upheld.of_breaks {a : Happening} (hb : m.Breaks e (tries (beats e tr)) a) :
    m.Ends e a := by
  obtain ⟨j, backoff, rfl, ht, hopen, hlt, hnone⟩ := hb
  obtain ⟨hfooting, hup, hc⟩ := h.chore hn ht rfl rfl
  have hcount : backoff.failures = tries (beats e tr) := by
    cases hfooting with
    | looks count past => exact count
  rw [← hcount] at hnone
  rw [Ends, hup, Machine.after]
  generalize (m.step e j).upkeep = next at hc ⊢
  cases hc with
  | pauses isOpen allowed drawn due =>
    rw [drawn] at hnone
    cases hnone
  | abandons => exact ⟨List.cons_ne_nil _ _, rfl⟩
  | breaks => exact ⟨List.cons_ne_nil _ _, rfl⟩

theorem Upheld.of_ends {a : Happening} (hends : m.Ends e a) :
    m.Quits e (tries (beats e tr)) a ∨ m.Breaks e (tries (beats e tr)) a := by
  obtain ⟨hsome, hnone⟩ := hends
  have hgone (hup : (m.after e a).upkeep = m.upkeep) : False := hsome (hup ▸ hnone)
  have hserve : a.serves = false := by
    cases a with
    | call caller c =>
      rw [Machine.after, upkeep, spawn, List.filter_append, List.append_eq_nil_iff] at hnone
      exact absurd hnone.1 hsome
    | _ => rfl
  by_cases hown : ∃ j t, a = .step j ∧ (j, t) ∈ m.upkeep ∧ m.readyTask e j t = true
  · obtain ⟨j, t, rfl, hmem, hready⟩ := hown
    have ht := task?_of_upkeep hn hmem
    obtain ⟨hfooting, -, hc⟩ := h.chore hn ht (mem_upkeep.mp hmem).2 hready
    rw [Machine.after] at hnone
    rw [hnone] at hc
    generalize m.beatOf? t = b? at hc
    cases hc with
    | callsClosed closed fails =>
      exact .inl (.calls ht (by simpa [readyTask, isDue] using hready) closed)
    | failsClosed ends passes fails =>
      exact .inl (.fails ht (by rw [ready, ht, Option.any_some, hready]) ends)
    | abandons lost fails =>
      cases hfooting with
      | looks count past => exact .inl (.looks ht (count ▸ lost))
    | breaks isOpen allowed drawn =>
      cases hfooting with
      | looks count past => exact .inr ⟨j, _, rfl, ht, isOpen, count ▸ allowed, count ▸ drawn⟩
  · exact (hgone (idle_after hn hserve fun j t ha hmem hready =>
      hown ⟨j, t, ha, hmem, hready⟩).1).elim

end Ending

/-- When the subscription is lost for good every request that is waiting is answered with its
loss. -/
theorem answers_of_failAll {p : Pending} {issued : Nat} (h : Ledger e p issued) :
    (p.failAll .subscriptionLost).entries = [] ∧ ∀ key slot, (key, slot) ∈ p.entries →
      (p.failAll .subscriptionLost).slot? slot = some (.error .subscriptionLost) := by
  refine ⟨rfl, fun key slot hmem => p.failAll_slot?_of_mem _ hmem ?_⟩
  obtain ⟨hlt, -⟩ := List.getElem?_eq_some_iff.mp (h.entry key slot hmem).2
  exact hlt

theorem Ends.of_isEmpty {a : Happening} (hm : m.upkeep.isEmpty = false)
    (ha : (m.after e a).upkeep.isEmpty = true) : m.Ends e a := by
  refine ⟨fun h => ?_, List.isEmpty_iff.mp ha⟩
  rw [h] at hm
  cases hm

theorem Breaks.lt {k : Nat} {a : Happening} (h : m.Breaks e k a) :
    k < e.settings.resubscribe.maxAttempts := by
  obtain ⟨j, backoff, -, -, -, hlt, -⟩ := h
  exact hlt

/-- The bridge keeps one subscription up as long as it can be kept up, and routes all that it
brings. -/
theorem subscription_kept_up (e : Surroundings) (hs : List Happening)
    (hserve : hs.countP Happening.serves ≤ 1)
    (hdrop : ∀ ticket ∈ given (beats e (trail e {} hs)), .dropSubscription ticket ∉ hs) :
    let m := run e {} hs
    let bs := beats e (trail e {} hs)
    -- one subscription at most is open
    (m.session.state.subscriptions.entries.filter fun p => p.2.ticket ∈ given bs).length ≤ 1 ∧
    -- what the subscriptions that have been opened have brought is routed, once and in order
    ((opened bs).Nodup ∧ routed bs ++ m.unread = (opened bs).flatMap m.session.mail) ∧
    (m.unread ≠ [] →
      ∃ j notice, m.ready e j = true ∧ m.beat? e (.step j) = some (.hears notice)) ∧
    (∀ j update, m.beat? e (.step j) = some (.hears (.diff update)) →
      ∃ t, m.step e j = (m.route update).become j t) ∧
    (∀ j t, (j, t) ∈ m.upkeep →
      (∀ update, m.beat? e (.step j) ≠ some (.hears (.diff update))) →
      Discreet m (m.step e j) ∨ m.Ends e (.step j) ∧ Discreet m.failPending (m.step e j)) ∧
    -- what counts as a call for it is one, and nothing else is but what a caller asks for
    (∀ j again ticket?, m.beat? e (.step j) = some (.calls again ticket?) →
      CallsFor e j m (m.step e j) ticket?) ∧
    (∀ h x, x ∈ (m.after e h).session.line.errands → x ∉ m.session.line.errands →
      ∀ id ship app path, x.freight = .command (.subscribe id ship app path) →
        (∃ again ticket, m.beat? e h = some (.calls again (some ticket))) ∨ ∃ j caller,
          h = .step j ∧ m.task? j = some (.start caller (.subscribe ship app path))) ∧
    -- it is called for again as often as the policy allows
    tries bs ≤ e.settings.resubscribe.maxAttempts ∧
    -- before each of these calls the job pauses, from its step on for the policy's delay
    (∀ j backoff, m.task? j = some (.follow none backoff) → ¬m.Ends e (.step j) →
      ∃ d, Pauses e m (tries bs) j ⟨tries bs + 1⟩ d) ∧
    (∀ j backoff d, m.task? j = some (.pause backoff d) →
      WaitsFor e (trail e {} hs) (tries bs) j backoff d ∧ (m.ready e j = true ↔ d.due ≤ m.now) ∧
      ∀ h b, m.beat? e h = some b ↔
        h = .step j ∧ d.due ≤ m.now ∧ b = .calls true m.nextTicket?) ∧
    (∀ j ticket?, m.beat? e (.step j) = some (.calls true ticket?) →
      ∃ backoff d, m.task? j = some (.pause backoff d) ∧ d.due ≤ m.now) ∧
    -- the job ends when the subscription is lost for good, or the next delay cannot be had
    (∀ a, m.Ends e a ↔ m.Quits e (tries bs) a ∨ m.Breaks e (tries bs) a) ∧
    -- no request goes on waiting for a subscription that is lost for good
    ∀ a, m.Quits e (tries bs) a → (m.after e a).pending.entries = [] ∧
      ∀ key slot, (key, slot) ∈ m.pending.entries →
        (m.after e a).pending.slot? slot = some (.error .subscriptionLost) := by
  intro m bs
  have hup : Upheld e (trail e {} hs) m := upheld_run hserve hdrop
  have hn : m.Numbered := (orderly_initial.run hs).numbered
  refine ⟨hup.footing.single (subscriptions_sound_run hs), hup.footing.routed, hears_of_unread hn,
    fun j update => routes_of_hears, fun j t => hup.discreet hn,
    fun j again ticket? => callsFor_of_beat,
    fun h x hx hnew id ship app path => calls_of_errand hx hnew, hup.limit,
    fun j backoff => hup.pauses hn, fun j backoff d ht => ⟨?_, ?_, hup.beat?_of_pause ht⟩,
    fun j ticket? => due_of_calls, fun a => ⟨hup.of_ends hn, ?_⟩, fun a hq => ?_⟩
  · exact hup.footing.waits (mem_upkeep.mpr ⟨mem_of_task? ht, rfl⟩)
  · rw [ready, ht, Option.any_some, readyTask, isDue, decide_eq_true_eq]
  · rintro (hq | hb)
    · exact (hup.of_quits hn hq).1
    · exact hup.of_breaks hn hb
  · rw [(hup.of_quits hn hq).2]
    exact answers_of_failAll (ledger_run hs)

theorem pause_of_due (due : Nat)
    (h : ((m.task? j).any fun | .pause _ d => d.due == due | _ => false) = true) :
    ∃ backoff d, m.task? j = some (.pause backoff d) ∧ d.due = due := by
  obtain ⟨t, ht, hdue⟩ := (Option.any_eq_true _ _).mp h
  cases t with
  | pause backoff d => exact ⟨backoff, d, ht, by simpa using hdue⟩
  | _ => cases hdue

/-- The ship ends the subscription after a diff. The job pauses for a second from then on, not from
the start, and the one further call that the policy allows does not reach the ship: the request that
has been waiting is told so. -/
theorem subscription_kept_up_exhausted :
    let e : Surroundings :=
      { settings := { ship := "zod", resubscribe := { maxAttempts := 1 } }, reconnect := {},
        limit := 1000, correlate := toString }
    let update : EventStream.Event :=
      { id := some "1",
        data := "\x7b\"id\":1,\"response\":\"diff\",\"json\":\x7b\"method\":\"built\"\x7d\x7d" }
    let quit : EventStream.Event :=
      { id := some "2", data := "\x7b\"id\":1,\"response\":\"quit\"\x7d" }
    let paused : List Happening := [.passed 400, .call 0 .serve, .step 0, .step 0,
      .delivered (.ok ()), .step 0, .call 1 (.forward "hover" none), .step 3, .step 3,
      .delivered (.ok ()), .step 3, .step 1, .reached (.ok ()), .step 1,
      .arrived [.ok update, .ok quit], .step 1, .step 1, .step 2, .step 2, .step 2, .step 2,
      .passed 999]
    let hs : List Happening := paused ++ [.passed 1, .step 2, .step 2,
      .delivered (.error (.network "down")), .step 2]
    hs.countP Happening.serves ≤ 1 ∧
      (∀ ticket ∈ given (beats e (trail e {} hs)), .dropSubscription ticket ∉ hs) ∧
      (∀ h, (run e {} paused).beat? e h = none) ∧
      (run e {} (paused ++ [.passed 1])).beat? e (.step 2) = some (.calls true (some 1)) ∧
      (opened (beats e (trail e {} hs))).flatMap (run e {} hs).session.mail =
        [.object [("method", .string "built")]] ∧
      tries (beats e (trail e {} hs)) = 1 ∧ (run e {} hs).Ends e (.step 2) ∧
      ((run e {} hs).after e (.step 2)).pending.entries = [] ∧
      ((run e {} hs).after e (.step 2)).pending.slot? 0 = some (.error .subscriptionLost) := by
  intro e update quit paused hs
  have hkept (ks : List Happening) (hserve : ks.countP Happening.serves ≤ 1)
      (hdrop : ks.all (fun h => match h with | .dropSubscription _ => false | _ => true) = true) :=
    subscription_kept_up e ks hserve fun ticket _ h => by simpa using List.all_eq_true.mp hdrop _ h
  have hserve : hs.countP Happening.serves ≤ 1 := by decide
  have hdrop : ∀ ticket ∈ given (beats e (trail e {} hs)), .dropSubscription ticket ∉ hs :=
    fun ticket _ h => by simp [hs, paused] at h
  obtain ⟨-, -, -, -, -, -, -, -, -, hearly, -⟩ := hkept paused (by decide) (by decide)
  obtain ⟨-, -, -, -, -, -, -, -, -, hdue, -⟩ := hkept (paused ++ [.passed 1]) (by decide) (by decide)
  obtain ⟨-, ⟨-, hrouted⟩, -, -, -, -, -, -, -, -, -, hends, hlost⟩ :=
    subscription_kept_up e hs hserve hdrop
  have hwaits : ∀ h, (run e {} paused).beat? e h = none := fun h => by
    obtain ⟨backoff, d, ht, hd⟩ := pause_of_due (m := run e {} paused) (j := 2) 1400
      (by decide +kernel)
    have hnow : (run e {} paused).now = 1399 := by decide +kernel
    refine Option.eq_none_iff_forall_ne_some.mpr fun b hb => ?_
    obtain ⟨-, hle, -⟩ := ((hearly 2 backoff d ht).2.2 h b).mp hb
    omega
  have hcalls : (run e {} (paused ++ [.passed 1])).beat? e (.step 2) =
      some (.calls true (some 1)) := by
    obtain ⟨backoff, d, ht, hd⟩ := pause_of_due (m := run e {} (paused ++ [.passed 1])) (j := 2)
      1400 (by decide +kernel)
    have hnow : (run e {} (paused ++ [.passed 1])).now = 1400 := by decide +kernel
    have hticket : (run e {} (paused ++ [.passed 1])).nextTicket? = some 1 := by decide +kernel
    exact ((hdue 2 backoff d ht).2.2 _ _).mpr ⟨rfl, by omega, by rw [hticket]⟩
  have hall : routed (beats e (trail e {} hs)) ++ (run e {} hs).unread =
      [.object [("method", .string "built")]] := by decide +kernel
  have htries : tries (beats e (trail e {} hs)) = 1 := by decide +kernel
  have hbefore : (run e {} hs).upkeep.isEmpty = false := by decide +kernel
  have hafter : ((run e {} hs).after e (.step 2)).upkeep.isEmpty = true := by decide +kernel
  have hpending : ("1", 0) ∈ (run e {} hs).pending.entries := by decide +kernel
  have hend : (run e {} hs).Ends e (.step 2) := .of_isEmpty hbefore hafter
  have hlast : ¬(run e {} hs).Breaks e (tries (beats e (trail e {} hs))) (.step 2) := fun hb => by
    have hlt := hb.lt
    rw [htries] at hlt
    exact Nat.lt_irrefl 1 hlt
  obtain ⟨hnone, hanswers⟩ := hlost _ (((hends _).mp hend).resolve_right hlast)
  exact ⟨hserve, hdrop, hwaits, hcalls, hrouted.symm.trans hall, htries, hend, hnone,
    hanswers "1" 0 hpending⟩

/-- A diff that comes before the call for its subscription fails is not routed, although none comes
after it. A policy whose numbers give no second delay ends the job after its first call, with a
request left waiting on an open session. Two calls to serve open two subscriptions. -/
theorem subscription_let_go :
    let e (policy : Retry.Policy) : Surroundings :=
      { settings := { ship := "zod", resubscribe := policy }, reconnect := {}, limit := 1000,
        correlate := toString }
    let once : Retry.Policy := { maxAttempts := 1 }
    let shrinking : Retry.Policy :=
      { maxAttempts := 3, baseDelay := .ofMillis 100, growth := -1.0, jitter := false }
    let quit : EventStream.Event :=
      { id := some "1", data := "\x7b\"id\":1,\"response\":\"quit\"\x7d" }
    let update : EventStream.Event :=
      { id := some "2",
        data := "\x7b\"id\":2,\"response\":\"diff\",\"json\":\x7b\"method\":\"built\"\x7d\x7d" }
    let unheard : List Happening := [.call 0 .serve, .step 0, .step 0, .delivered (.ok ()),
      .step 0, .step 1, .reached (.ok ()), .step 1, .arrived [.ok quit], .step 1, .step 2, .step 2,
      .step 2, .passed 1000, .step 2, .step 2, .arrived [.ok update], .step 1,
      .delivered (.error (.network "down")), .step 2, .step 2]
    let undelayed : List Happening := [.call 0 (.forward "hover" none), .step 0, .step 0,
      .delivered (.ok ()), .step 0, .call 1 .serve, .step 2, .step 2,
      .delivered (.error (.network "down")), .step 2, .step 3, .passed 100, .step 3, .step 3,
      .delivered (.error (.network "down")), .step 3, .step 3]
    let twice : List Happening := [.call 0 .serve, .call 1 .serve, .step 0, .step 1]
    ((run (e once) {} unheard).session.mail 1 = [.object [("method", .string "built")]] ∧
      (run (e once) {} unheard).upkeep.isEmpty = true ∧
      routed (beats (e once) (trail (e once) {} unheard)) = []) ∧
    ((run (e shrinking) {} undelayed.dropLast).upkeep.isEmpty = false ∧
      (run (e shrinking) {} undelayed).upkeep.isEmpty = true ∧
      tries (beats (e shrinking) (trail (e shrinking) {} undelayed)) < shrinking.maxAttempts ∧
      (run (e shrinking) {} undelayed).session.state.isClosed = false ∧
      (run (e shrinking) {} undelayed).pending.entries = [("1", 0)]) ∧
    1 < ((run (e once) {} twice).session.state.subscriptions.entries.filter fun p =>
      p.2.ticket ∈ given (beats (e once) (trail (e once) {} twice))).length := by
  refine ⟨⟨?_, ?_, ?_⟩, ⟨?_, ?_, ?_, ?_, ?_⟩, ?_⟩ <;> decide +kernel

end Machine

end ShipBridge.Relay
