import ShipBridge.Proofs.Relay.Calls
import ShipBridge.Proofs.Relay.Deliveries
import ShipBridge.Proofs.Session.Mailboxes

/-!
# The steps that keep the subscription up

One job at a time keeps the subscription to the ship's updates up: it calls for the subscription,
follows it, looks for the next attempt when the subscription has ended, and pauses before it calls
again. A step of this job is one of a few chores. Nothing else that happens touches the job, and
what happens on its behalf, call by call and notice by notice, can be told from the bridge that the
happening meets.
-/

namespace ShipBridge.Relay

open Session (Answer Notice Receipt)

/-- The ticket of the subscription that is being sent for on the bridge's own behalf, and the count
of failures to go on with. -/
def Purpose.renews? : Purpose → Option (Nat × Retry.Backoff)
  | .serve _ ticket => some (ticket, {})
  | .resubscribe ticket backoff => some (ticket, backoff)
  | _ => none

/-- The task calls for the subscription, for the first time or again, with this count of failures to
go on with. -/
def Task.seeks? : Task → Option (Bool × Retry.Backoff)
  | .start _ .serve => some (false, {})
  | .pause backoff _ => some (true, backoff)
  | _ => none

/-- What happens on behalf of the bridge's own subscription: it is called for, for the first time or
again, and given a ticket unless the session is closed; the call has been delivered; a notice is
taken off it. -/
inductive Beat where
  | calls (again : Bool) (ticket? : Option Nat)
  | opens (ticket : Nat)
  | hears (notice : Notice)

theorem filterMap_concat {α β : Type} (f : α → Option β) (xs : List α) (x : α) :
    (xs ++ [x]).filterMap f = xs.filterMap f ++ (f x).toList := by
  rw [List.filterMap_append]
  cases hx : f x <;> simp [hx]

namespace Beat

@[simp] def given? : Beat → Option Nat
  | .calls _ ticket? => ticket?
  | _ => none

@[simp] def opened? : Beat → Option Nat
  | .opens ticket => some ticket
  | _ => none

@[simp] def routed? : Beat → Option Json
  | .hears notice => notice.diff?
  | _ => none

@[simp] def count (tries : Nat) : Beat → Nat
  | .calls true _ => tries + 1
  | .hears (.diff _) => 0
  | _ => tries

variable (bs : List Beat) (b : Beat)

def given : List Nat := bs.filterMap given?

def opened : List Nat := bs.filterMap opened?

def routed : List Json := bs.filterMap routed?

/-- How often the subscription has been called for again since the last diff. -/
def tries : Nat := bs.foldl count 0

@[simp] theorem given_concat : given (bs ++ [b]) = given bs ++ b.given?.toList :=
  filterMap_concat given? bs b

@[simp] theorem opened_concat : opened (bs ++ [b]) = opened bs ++ b.opened?.toList :=
  filterMap_concat opened? bs b

@[simp] theorem routed_concat : routed (bs ++ [b]) = routed bs ++ b.routed?.toList :=
  filterMap_concat routed? bs b

@[simp] theorem tries_concat : tries (bs ++ [b]) = b.count (tries bs) := by
  rw [tries, List.foldl_append]
  rfl

end Beat

def Happening.serves : Happening → Bool
  | .call _ .serve => true
  | _ => false

namespace Machine

section Definitions

variable (e : Surroundings) (m : Machine)

def upkeep : List (Nat × Task) := m.jobs.filter fun p => p.2.strand = .subscription

/-- The ticket that a call for a subscription is given. -/
def nextTicket? : Option Nat :=
  if m.session.state.isClosed then none else some m.session.state.subscriptions.mailboxes.length

/-- What a task does for the subscription if it takes a step. -/
def beatOf? : Task → Option Beat
  | .sending p => p.renews?.bind fun q => match m.ending? with
    | some (.ok ()) => some (.opens q.1)
    | _ => none
  | .follow (some (ticket, seen)) _ =>
    (m.session.state.subscriptions.mailbox ticket).notices[seen]?.map .hears
  | t => t.seeks?.map fun q => .calls q.1 m.nextTicket?

def beat? : Happening → Option Beat
  | .step j => (m.task? j).bind fun t => if m.readyTask e j t then m.beatOf? t else none
  | _ => none

def beats (tr : List (Machine × Happening)) : List Beat := tr.filterMap fun q => q.1.beat? e q.2

end Definitions

variable {e : Surroundings} {m m' u : Machine} {j : Nat} {t : Task} {p : Purpose}
  {next : Option Task} {new : List Task}

theorem beats_concat (tr : List (Machine × Happening)) {h : Happening} {b : Beat}
    (hb : m.beat? e h = some b) : beats e (tr ++ [(m, h)]) = beats e tr ++ [b] := by
  rw [beats, filterMap_concat, hb, Option.toList_some, beats]

theorem beats_concat_of_none (tr : List (Machine × Happening)) {h : Happening}
    (hb : m.beat? e h = none) : beats e (tr ++ [(m, h)]) = beats e tr := by
  rw [beats, filterMap_concat, hb, Option.toList_none, List.append_nil, beats]

theorem beatOf?_of_strand (hs : t.strand ≠ .subscription) : m.beatOf? t = none := by
  cases t with
  | start caller c =>
    cases c with
    | serve => exact absurd rfl hs
    | _ => rfl
  | sending p =>
    cases p with
    | serve | resubscribe => exact absurd rfl hs
    | _ => rfl
  | follow | pause => exact absurd rfl hs
  | _ => rfl

theorem follow_of_hears {notice : Notice} (h : m.beatOf? t = some (.hears notice)) :
    ∃ ticket seen backoff, t = .follow (some (ticket, seen)) backoff ∧
      (m.session.state.subscriptions.mailbox ticket).notices[seen]? = some notice := by
  unfold beatOf? at h
  split at h
  · obtain ⟨q, -, hq⟩ := Option.bind_eq_some_iff.mp h
    split at hq <;> cases hq
  · next ticket seen backoff =>
    obtain ⟨n, hnotice, heq⟩ := Option.map_eq_some_iff.mp h
    obtain rfl := Beat.hears.inj heq
    exact ⟨ticket, seen, backoff, rfl, hnotice⟩
  · obtain ⟨q, -, heq⟩ := Option.map_eq_some_iff.mp h
    cases heq

theorem seeks?_of_calls {again : Bool} {ticket? : Option Nat}
    (h : m.beatOf? t = some (.calls again ticket?)) :
    ticket? = m.nextTicket? ∧ ∃ backoff, t.seeks? = some (again, backoff) := by
  unfold beatOf? at h
  split at h
  · obtain ⟨q, -, hq⟩ := Option.bind_eq_some_iff.mp h
    split at hq <;> cases hq
  · obtain ⟨notice, -, heq⟩ := Option.map_eq_some_iff.mp h
    cases heq
  · obtain ⟨q, hq, heq⟩ := Option.map_eq_some_iff.mp h
    obtain ⟨rfl, rfl⟩ := Beat.calls.inj heq
    exact ⟨rfl, q.2, hq⟩

theorem pause_of_calls {ticket? : Option Nat} (h : m.beatOf? t = some (.calls true ticket?)) :
    ∃ backoff d, t = .pause backoff d := by
  obtain ⟨-, backoff, hseeks⟩ := seeks?_of_calls h
  cases t with
  | pause backoff d => exact ⟨backoff, d, rfl⟩
  | start caller c => cases c <;> cases hseeks
  | _ => cases hseeks

theorem beat?_step (ht : m.task? j = some t) (hready : m.readyTask e j t = true) :
    m.beat? e (.step j) = m.beatOf? t := by
  rw [beat?, ht, Option.bind_some, if_pos hready]

theorem task_of_beat {b : Beat} (h : m.beat? e (.step j) = some b) :
    ∃ t, m.task? j = some t ∧ m.readyTask e j t = true ∧ m.beatOf? t = some b := by
  obtain ⟨t, ht, hb⟩ := Option.bind_eq_some_iff.mp h
  split_ifs at hb with hready
  exact ⟨t, ht, hready, hb⟩

theorem beat?_of_not_ready (ht : m.task? j = some t) (hready : ¬m.readyTask e j t = true) :
    m.beat? e (.step j) = none := by
  rw [beat?, ht, Option.bind_some, if_neg hready]

/-! ## The jobs of the strand -/

theorem mem_upkeep : (j, t) ∈ m.upkeep ↔ (j, t) ∈ m.jobs ∧ t.strand = .subscription := by
  rw [upkeep, List.mem_filter, decide_eq_true_eq]

theorem task?_of_upkeep (hn : m.Numbered) (h : (j, t) ∈ m.upkeep) : m.task? j = some t :=
  hn.task?_of_mem (mem_upkeep.mp h).1

theorem filter_numberedFrom (n : Nat) (h : ∀ t ∈ new, t.strand ≠ .subscription) :
    (numberedFrom n new).filter (fun p => p.2.strand = .subscription) = [] :=
  List.filter_eq_nil_iff.mpr fun _ hp => by simpa using h _ (le_of_mem_numberedFrom hp).2

theorem upkeep_of_grows (hg : Grows new m m') (h : ∀ t ∈ new, t.strand ≠ .subscription) :
    m'.upkeep = m.upkeep := by
  rw [upkeep, hg.jobs, List.filter_append, filter_numberedFrom _ h, List.append_nil, upkeep]

/-- A job of another strand that leads to no job of this one leaves this one alone. -/
theorem upkeep_of_sequel (hseq : Sequel j next new m m') (hn : m.Numbered)
    (ht : m.task? j = some t) (hs : t.strand ≠ .subscription)
    (h : ∀ t ∈ next.toList ++ new, t.strand ≠ .subscription) : m'.upkeep = m.upkeep := by
  obtain ⟨l, r, hm, hm'⟩ := hseq.split hn ht
  have hnext : (next.toList.map (Prod.mk j)).filter
      (fun p => p.2.strand = .subscription) = [] := by
    refine List.filter_eq_nil_iff.mpr fun p hp => ?_
    obtain ⟨u, hu, rfl⟩ := List.mem_map.mp hp
    simpa using h u (List.mem_append_left _ hu)
  rw [upkeep, upkeep, hm, hm', List.filter_append, List.filter_append, List.filter_append, hnext,
    filter_numberedFrom _ fun u hu => h u (List.mem_append_right _ hu), List.append_nil,
    List.append_nil, List.filter_append, List.filter_cons_of_neg (by simpa using hs)]

theorem upkeep_of_own (hseq : Sequel j next new m m') (hn : m.Numbered)
    (hup : m.upkeep = [(j, t)]) : m'.upkeep =
      (next.toList.map (Prod.mk j) ++ numberedFrom m.born new).filter
        fun p => p.2.strand = .subscription := by
  have hmem : (j, t) ∈ m.upkeep := hup ▸ List.mem_singleton_self _
  obtain ⟨l, r, hm, hm'⟩ := hseq.split hn (task?_of_upkeep hn hmem)
  have hself : t.strand = .subscription := (mem_upkeep.mp hmem).2
  have hrest : l.filter (fun p => p.2.strand = .subscription) = [] ∧
      r.filter (fun p => p.2.strand = .subscription) = [] := by
    rw [upkeep, hm, List.filter_append, List.filter_cons_of_pos (by simpa using hself)] at hup
    have hlength := congrArg List.length hup
    simp only [List.length_append, List.length_cons, List.length_nil] at hlength
    exact ⟨List.length_eq_zero_iff.mp (by omega), List.length_eq_zero_iff.mp (by omega)⟩
  rw [upkeep, hm', List.filter_append, List.filter_append, List.filter_append, List.filter_append,
    hrest.1, hrest.2, List.nil_append, List.append_nil]

theorem strand_of_next {source : Source} {method : String}
    (h : t ∈ (Source.next method source).toList) : t.strand = .other := by
  cases source with
  | caller n => cases h
  | editor conversation =>
    simp only [Source.next] at h
    split_ifs at h
    · cases h
    · rw [List.mem_singleton.mp h]
      rfl

theorem strand_of_secondCopy {method : String} {body : Json} {d : Timer}
    (h : t ∈ secondCopy e method body d) : t.strand = .notification := by
  unfold secondCopy at h
  split_ifs at h
  · rw [List.mem_singleton.mp h]
    rfl
  · cases h

/-- Whatever happens without a step of the strand's job, and is no call to serve, leaves the strand
alone. -/
theorem upkeep_after (hn : m.Numbered) {h : Happening} (hserve : h.serves = false)
    (hstep : ∀ j, h = .step j → ∀ t, (j, t) ∉ m.upkeep) :
    (m.after e h).upkeep = m.upkeep ∧ m.beat? e h = none := by
  have hrefl := Grows.refl m
  cases h with
  | step j =>
    cases ht : m.task? j with
    | none => exact ⟨by rw [after, step, ht], by rw [beat?, ht]; rfl⟩
    | some t =>
      have hs : t.strand ≠ .subscription := fun hs =>
        hstep j rfl t (mem_upkeep.mpr ⟨mem_of_task? ht, hs⟩)
      by_cases hready : m.readyTask e j t = true
      · refine ⟨?_, (beat?_step ht hready).trans (beatOf?_of_strand hs)⟩
        rw [after]
        cases hh : m.handles? e t with
        | some n =>
          rcases (handles_begins hn ht hready hh).called with
            ⟨id, ticket, -, hseq⟩ | ⟨-, -, d, -, hseq⟩
          · refine upkeep_of_sequel hseq hn ht hs fun u hu => ?_
            rw [List.mem_singleton.mp hu]
            exact fun h => by cases h
          · refine upkeep_of_sequel hseq hn ht hs fun u hu => ?_
            rcases List.mem_append.mp hu with hu | hu
            · rw [strand_of_next hu]
              decide
            · rw [strand_of_secondCopy hu]
              decide
        | none =>
          obtain ⟨next, new, hseq, hwithin⟩ := stepTask_leads hn ht hready hh
          rw [← step_of_ready ht hready] at hseq
          refine upkeep_of_sequel hseq hn ht hs fun u hu => ?_
          rcases hwithin u hu with hu | hu
          · rw [hu]
            decide
          · rwa [hu]
      · exact ⟨by rw [after, step_of_not_ready ht hready], beat?_of_not_ready ht hready⟩
  | call n c =>
    refine ⟨upkeep_of_grows (hrefl.spawn (.start n c)) fun u hu => ?_, rfl⟩
    rw [List.mem_singleton.mp hu]
    cases c <;> first | (cases hserve; done) | exact fun h => by cases h
  | updated json =>
    obtain ⟨new, hgrows, hwithin⟩ := (Swells.refl .other m).route json
    refine ⟨upkeep_of_grows hgrows fun u hu => ?_, rfl⟩
    rw [(hwithin u hu).elim id id]
    decide
  | connect =>
    obtain ⟨new, hgrows, hstream⟩ := withSession_grows m m.session.connect
    refine ⟨upkeep_of_grows hgrows fun u hu => ?_, rfl⟩
    rw [hstream u hu]
    decide
  | _ => exact ⟨rfl, rfl⟩

/-! ## The session -/

/-- A happening takes at most one action of the session, and lets go of a subscription only if it
is told to. -/
theorem after_acts (m : Machine) (h : Happening) : (m.after e h).session = m.session ∨
    ∃ n a, (∀ ticket, a = .dropSubscription ticket → h = .dropSubscription ticket) ∧
      (m.after e h).session = m.session.act n a := by
  have hkeeps {n : Nat} {a : Session.Action} (hd : a.drops = false)
      (hact : (m.after e h).session = m.session.act n a) : ∃ n a,
      (∀ ticket, a = .dropSubscription ticket → h = .dropSubscription ticket) ∧
        (m.after e h).session = m.session.act n a := by
    refine ⟨n, a, ?_, hact⟩
    rintro ticket rfl
    cases hd
  cases h with
  | step j =>
    cases ht : m.task? j with
    | none => exact .inl (by rw [after, step, ht])
    | some t =>
      by_cases hready : m.readyTask e j t = true
      · have hcalls := stepTask_calls hready
        rw [← step_of_ready ht hready] at hcalls
        cases hr : m.asks? e t with
        | none =>
          rcases hcalls.silent hr with hsame | ⟨n, a, hd, -, hact⟩
          · exact .inl hsame
          · exact .inr (hkeeps hd hact)
        | some r => exact .inr (hkeeps (n := 0) (a := .call j r) rfl (hcalls.asked r hr 0))
      · exact .inl (by rw [after, step_of_not_ready ht hready])
  | updated json => exact .inl (m.route_session json)
  | connect => exact .inr (hkeeps (n := 0) (a := .connect) rfl (m.withSession_session _))
  | forget id => exact .inr (hkeeps (n := 0) (a := .forget id) rfl rfl)
  | dropPoke ticket =>
    refine .inr ⟨0, .dropPoke ticket, fun u hu => ?_, rfl⟩
    cases hu
  | dropSubscription ticket =>
    refine .inr ⟨0, .dropSubscription ticket, fun u hu => ?_, rfl⟩
    cases hu
    rfl
  | _ => exact .inl rfl

theorem subscriptions_sound_after {h : Happening} (hs : m.session.state.subscriptions.Sound) :
    (m.after e h).session.state.subscriptions.Sound := by
  rcases m.after_acts (e := e) h with hsame | ⟨n, a, -, hact⟩
  · rwa [hsame]
  · rw [hact]
    exact hs.act a

theorem lapsed_after {ticket : Nat} (hl : m.session.Lapsed ticket) (h : Happening) :
    (m.after e h).session.Lapsed ticket ∧
      (m.after e h).session.mail ticket = m.session.mail ticket := by
  rcases m.after_acts (e := e) h with hsame | ⟨n, a, -, hact⟩
  · rw [hsame]
    exact ⟨hl, rfl⟩
  · rw [hact]
    exact hl.act a

theorem holds_after {id ticket : Nat} {ns : List Notice} (hh : m.session.Holds id ticket ns)
    (hs : m.session.state.subscriptions.Sound) {h : Happening}
    (hdrop : h ≠ .dropSubscription ticket) :
    ∃ more, (m.after e h).session.Holds id ticket (ns ++ more) := by
  rcases m.after_acts (e := e) h with hsame | ⟨n, a, hdrops, hact⟩
  · refine ⟨[], ?_⟩
    rw [hsame, List.append_nil]
    exact hh
  · rw [hact]
    exact hh.act hs fun ha => hdrop (hdrops ticket ha)

/-! ## The chores -/

/-- What a step of job `j`, which keeps the subscription up by itself, can do: from the task that it
has to what happens on behalf of the subscription, and to the jobs that keep it up from then on. -/
inductive Chore (e : Surroundings) (j : Nat) (m m' : Machine) :
    Task → Option Beat → List (Nat × Task) → Prop
  | calls {t again backoff id ticket p} (seeks : t.seeks? = some (again, backoff))
      (call : m.session.call? j (subscription e) = some (.subscription id ticket, m'.session))
      (renews : p.renews? = some (ticket, backoff)) :
      Chore e j m m' t (some (.calls again (some ticket))) [(j, .sending p)]
  | servesClosed {caller k} :
      Chore e j m m' (.start caller .serve) (some (.calls false none)) [(k, .follow none {})]
  | callsClosed {backoff d} (closed : m.session.state.isClosed = true)
      (fails : m'.pending = m.pending.failAll .subscriptionLost) :
      Chore e j m m' (.pause backoff d) (some (.calls true none)) []
  | puts {p q} (renews : p.renews? = some q) (puts : Puts m m') :
      Chore e j m m' (.sending p) none [(j, .sending p)]
  | opens {p ticket backoff k} (renews : p.renews? = some (ticket, backoff))
      (ends : m.ending? = some (.ok ())) :
      Chore e j m m' (.sending p) (some (.opens ticket)) [(k, .follow (some (ticket, 0)) backoff)]
  | fails {p ticket backoff k f} (renews : p.renews? = some (ticket, backoff))
      (ends : m.ending? = some (.error f)) (passes : m.session.Passes j (.error f) m'.session)
      (stays : f = .closed → p ≠ .resubscribe ticket backoff) :
      Chore e j m m' (.sending p) none [(k, .follow none backoff)]
  | failsClosed {ticket backoff} (ends : m.ending? = some (.error .closed))
      (passes : m.session.Passes j (.error .closed) m'.session)
      (fails : m'.pending = m.pending.failAll .subscriptionLost) :
      Chore e j m m' (.sending (.resubscribe ticket backoff)) none []
  | hears {ticket seen backoff notice}
      (next : (m.session.state.subscriptions.mailbox ticket).notices[seen]? = some notice) :
      Chore e j m m' (.follow (some (ticket, seen)) backoff) (some (.hears notice))
        [(j, .follow (some (ticket, seen + 1))
          (if notice.diff?.isSome then {} else backoff))]
  | ends {ticket seen backoff}
      (silent : (m.session.state.subscriptions.mailbox ticket).notices[seen]? = none)
      (detached : (m.session.state.subscriptions.mailbox ticket).attached = false) :
      Chore e j m m' (.follow (some (ticket, seen)) backoff) none [(j, .follow none backoff)]
  | pauses {backoff delay d} (isOpen : m.session.state.isClosed = false)
      (allowed : backoff.failures < e.settings.resubscribe.maxAttempts)
      (drawn : e.settings.resubscribe.drawn? backoff.failures (e.factor m.timers) = some delay)
      (due : d.due = m.now + delay.millisCeil) :
      Chore e j m m' (.follow none backoff) none [(j, .pause ⟨backoff.failures + 1⟩ d)]
  | abandons {backoff} (lost : m.session.state.isClosed = true ∨
        e.settings.resubscribe.maxAttempts ≤ backoff.failures)
      (fails : m'.pending = m.pending.failAll .subscriptionLost) :
      Chore e j m m' (.follow none backoff) none []
  | breaks {backoff} (isOpen : m.session.state.isClosed = false)
      (allowed : backoff.failures < e.settings.resubscribe.maxAttempts)
      (drawn : e.settings.resubscribe.drawn? backoff.failures (e.factor m.timers) = none) :
      Chore e j m m' (.follow none backoff) none []

/-- The jobs of the strand when its job is over and has set one of the strand going, after others
that are not of it. -/
theorem upkeep_of_born (hseq : Sequel j none (new ++ [t]) m m') (hn : m.Numbered) {v : Task}
    (hup : m.upkeep = [(j, v)]) (hnew : ∀ u ∈ new, u.strand ≠ .subscription)
    (ht : t.strand = .subscription) : m'.upkeep = [(m.born + new.length, t)] := by
  rw [upkeep_of_own hseq hn hup, Option.toList_none, List.map_nil, List.nil_append,
    numberedFrom_append, List.filter_append, filter_numberedFrom _ hnew, List.nil_append]
  exact List.filter_cons_of_pos (by simpa using ht)

/-- The jobs of the strand when its job goes on, or is over, and has set none of it going. -/
theorem upkeep_of_next (hseq : Sequel j next new m m') (hn : m.Numbered)
    (hup : m.upkeep = [(j, t)]) (hnew : ∀ u ∈ new, u.strand ≠ .subscription)
    (hnext : ∀ u, next = some u → u.strand = .subscription) :
    m'.upkeep = next.toList.map (Prod.mk j) := by
  rw [upkeep_of_own hseq hn hup, List.filter_append, filter_numberedFrom _ hnew,
    List.append_nil, List.filter_eq_self]
  rintro p hp
  obtain ⟨u, hu, rfl⟩ := List.mem_map.mp hp
  simpa using hnext u (Option.mem_toList.mp hu)

theorem upkeep_become (hg : Grows new m u) (hn : m.Numbered) (hup : m.upkeep = [(j, t)])
    (hnew : ∀ u ∈ new, u.strand ≠ .subscription) {v : Task} (hv : v.strand = .subscription) :
    (u.become j v).upkeep = [(j, v)] := by
  have hj : j < m.born := hn.below _ (mem_upkeep.mp (hup ▸ List.mem_singleton_self _)).1
  exact upkeep_of_next (hg.become hj v) hn hup hnew fun _ hw => Option.some.inj hw ▸ hv

theorem upkeep_dismiss (hg : Grows new m u) (hn : m.Numbered) (hup : m.upkeep = [(j, t)])
    (hnew : ∀ u ∈ new, u.strand ≠ .subscription) : (u.dismiss j).upkeep = [] := by
  have hj : j < m.born := hn.below _ (mem_upkeep.mp (hup ▸ List.mem_singleton_self _)).1
  exact upkeep_of_next (hg.dismiss hj) hn hup hnew fun _ hw => by cases hw

theorem upkeep_abandon (hg : Grows new m u) (hn : m.Numbered) (hup : m.upkeep = [(j, t)])
    (hnew : ∀ u ∈ new, u.strand ≠ .subscription) : (u.abandon j).upkeep = [] :=
  upkeep_dismiss (u := u.failPending) (hg.of_jobs rfl rfl) hn hup hnew

/-- A call for the subscription is given the next ticket, unless the session is closed. -/
theorem call?_subscription (m : Machine) (j : Nat) :
    (∃ id ticket u, m.call? j (subscription e) = some (.subscription id ticket, u) ∧
      m.nextTicket? = some ticket) ∨
    m.call? j (subscription e) = none ∧ m.session.state.isClosed = true ∧
      m.nextTicket? = none := by
  rcases m.call?_receipt j (subscription e) with h | ⟨u, h⟩
  · have hclosed := isClosed_of_call? (call?_eq_none h)
    exact .inr ⟨h, hclosed, if_pos hclosed⟩
  · obtain ⟨hcall, -⟩ := call?_grows h
    obtain ⟨-, hopen, -⟩ := Session.call?_eq_some (n := 0) hcall
    obtain ⟨hreceipt, -⟩ := Session.holds_of_call hcall
    rw [hreceipt] at h
    exact .inl ⟨_, _, u, h, if_neg (by simp [hopen])⟩

/-- Job `j` calls the session for the subscription: it is given the ticket of a new one, or is
refused and leaves the session as it is. -/
def CallsFor (e : Surroundings) (j : Nat) (m m' : Machine) : Option Nat → Prop
  | some ticket => ∃ id,
    m.session.call? j (subscription e) = some (.subscription id ticket, m'.session)
  | none => m.session.call? j (subscription e) = none ∧ m'.session = m.session

theorem asks?_of_seeks {q : Bool × Retry.Backoff} (h : t.seeks? = some q) :
    m.asks? e t = some (subscription e) := by
  cases t with
  | start caller c =>
    cases c with
    | serve => rfl
    | _ => cases h
  | pause => rfl
  | _ => cases h

theorem callsFor_of_beat {again : Bool} {ticket? : Option Nat}
    (h : m.beat? e (.step j) = some (.calls again ticket?)) :
    CallsFor e j m (m.step e j) ticket? := by
  obtain ⟨t, ht, hready, hbeat⟩ := task_of_beat h
  obtain ⟨rfl, backoff, hseeks⟩ := seeks?_of_calls hbeat
  have hcalls := stepTask_calls (e := e) hready
  rw [← step_of_ready ht hready] at hcalls
  have hsession := hcalls.asked _ (asks?_of_seeks hseeks) 0
  rw [Session.act] at hsession
  rcases m.call?_subscription (e := e) j with ⟨id, ticket, u, hcall, hticket⟩ | ⟨hnone, -, hticket⟩
  · obtain ⟨hcall, -⟩ := call?_grows hcall
    rw [hcall] at hsession
    rw [hticket]
    exact ⟨id, by rw [hsession]; exact hcall⟩
  · have hrefused := call?_eq_none hnone
    rw [hrefused] at hsession
    rw [hticket]
    exact ⟨hrefused, hsession⟩

theorem beatOf?_of_seeks {again : Bool} {backoff : Retry.Backoff}
    (h : t.seeks? = some (again, backoff)) :
    m.beatOf? t = some (.calls again m.nextTicket?) := by
  cases t with
  | start caller c =>
    cases c with
    | serve =>
      obtain ⟨rfl, -⟩ := Prod.mk.inj (Option.some.inj h)
      rfl
    | _ => cases h
  | pause =>
    obtain ⟨rfl, -⟩ := Prod.mk.inj (Option.some.inj h)
    rfl
  | _ => cases h

/-- Only the bridge itself, and callers that subscribe for themselves, ask for a subscription. -/
theorem seeks?_of_asks {ship app path : String}
    (h : m.asks? e t = some (.subscribe ship app path)) :
    (∃ q, t.seeks? = some q) ∨ ∃ caller, t = .start caller (.subscribe ship app path) := by
  have hpoke (turn : Editor.Turn) :
      pokeFor? e (m.nextKey e) turn ≠ some (.subscribe ship app path) := by
    cases turn with
    | request id method params =>
      simp only [pokeFor?]
      split_ifs <;> simp
    | _ => exact fun h => by cases h
  cases t with
  | start caller c =>
    cases c with
    | serve => exact .inl ⟨_, rfl⟩
    | subscribe ship' app' path' =>
      obtain ⟨rfl, rfl, rfl⟩ := Session.Request.subscribe.inj (Option.some.inj h)
      exact .inr ⟨caller, rfl⟩
    | notify method params => exact absurd h (hpoke (.notification method params))
    | request method params => exact absurd h (hpoke (.request .null method params))
    | _ => cases h
  | pause => exact .inl ⟨_, rfl⟩
  | converse conversation =>
    simp only [asks?] at h
    split at h
    · exact absurd h (hpoke _)
    · cases h
  | _ => cases h

/-- A call for a subscription gets into the queue for the line as one of the bridge's own, or as a
caller's. -/
theorem calls_of_errand {h : Happening} {x : Session.Errand}
    (hx : x ∈ (m.after e h).session.line.errands) (hnew : x ∉ m.session.line.errands) {id : Nat}
    {ship app path : String} (hfreight : x.freight = .command (.subscribe id ship app path)) :
    (∃ again ticket, m.beat? e h = some (.calls again (some ticket))) ∨
      ∃ j caller, h = .step j ∧ m.task? j = some (.start caller (.subscribe ship app path)) := by
  rcases errand_of_after hx hnew with hack | ⟨j, t, r, rfl, ht, hready, hasks, rfl⟩
  · rw [hack] at hfreight
    cases hfreight
  · obtain rfl : r = .subscribe ship app path := by
      have hcommand := Session.Freight.command.inj hfreight
      cases r with
      | subscribe =>
        obtain ⟨-, rfl, rfl, rfl⟩ := Wire.Command.subscribe.inj hcommand
        rfl
      | _ => cases hcommand
    rcases seeks?_of_asks hasks with ⟨⟨again, backoff⟩, hseeks⟩ | ⟨caller, rfl⟩
    · have hbeat := (beat?_step ht hready).trans (beatOf?_of_seeks (m := m) hseeks)
      refine .inl ⟨again, ?_⟩
      cases hticket : m.nextTicket? with
      | some ticket => exact ⟨ticket, hticket ▸ hbeat⟩
      | none =>
        -- a call that is refused puts nothing in the queue
        have hcalls := callsFor_of_beat hbeat
        rw [hticket] at hcalls
        rw [after, hcalls.2] at hx
        exact absurd hx hnew
    · exact .inr ⟨j, caller, rfl, ht⟩

theorem discreet_of_call {receipt : Receipt}
    (h : m.call? j (subscription e) = some (receipt, u)) : Discreet m u := by
  obtain ⟨-, -, hpending, hlog⟩ := call?_grows h
  exact (Discreet.refl m).of_log hpending hlog

section Chores

variable (hn : m.Numbered)

include hn

theorem chore_serve {caller : Nat} (hup : m.upkeep = [(j, .start caller .serve)]) :
    Chore e j m (m.step e j) (.start caller .serve) (m.beatOf? (.start caller .serve))
      (m.step e j).upkeep := by
  have ht := task?_of_upkeep hn (hup ▸ List.mem_singleton_self _)
  have hj : j < m.born := hn.below _ (mem_of_task? ht)
  rw [step_of_ready ht rfl]
  simp only [stepTask, stepStart, beatOf?, Task.seeks?, Option.map_some]
  rcases m.call?_subscription (e := e) j with ⟨id, ticket, u, h, hticket⟩ | ⟨h, -, hticket⟩
  · obtain ⟨hcall, hgrows, -⟩ := call?_grows h
    have hup' := upkeep_become (v := .sending (.serve caller ticket)) hgrows hn hup
      (List.forall_mem_nil _) rfl
    rw [h, hticket, hup']
    exact .calls rfl hcall rfl
  · have hgrows := (Grows.refl m).spawn (.follow none {})
    have hup' := upkeep_of_born (hgrows.finish hj caller (.relay (.session .closed)) none) hn hup
      (List.forall_mem_nil _) rfl
    rw [h, hticket, hup']
    exact .servesClosed

theorem chore_pause {backoff : Retry.Backoff} {d : Timer} (hup : m.upkeep = [(j, .pause backoff d)])
    (hready : m.readyTask e j (.pause backoff d) = true) :
    Chore e j m (m.step e j) (.pause backoff d) (m.beatOf? (.pause backoff d))
      (m.step e j).upkeep := by
  have ht := task?_of_upkeep hn (hup ▸ List.mem_singleton_self _)
  rw [step_of_ready ht hready]
  simp only [stepTask, stepPause, beatOf?, Task.seeks?, Option.map_some]
  rcases m.call?_subscription (e := e) j with ⟨id, ticket, u, h, hticket⟩ | ⟨h, hclosed, hticket⟩
  · obtain ⟨hcall, hgrows, -⟩ := call?_grows h
    have hup' := upkeep_become (v := .sending (.resubscribe ticket backoff)) hgrows hn hup
      (List.forall_mem_nil _) rfl
    rw [h, hticket, hup']
    exact .calls rfl hcall rfl
  · have hup' := upkeep_abandon (.refl m) hn hup (List.forall_mem_nil _)
    rw [h, hticket, hup']
    exact .callsClosed hclosed rfl

theorem chore_detached {backoff : Retry.Backoff} (hup : m.upkeep = [(j, .follow none backoff)]) :
    Chore e j m (m.step e j) (.follow none backoff) (m.beatOf? (.follow none backoff))
      (m.step e j).upkeep := by
  have ht := task?_of_upkeep hn (hup ▸ List.mem_singleton_self _)
  have hfew : ∀ u ∈ ([] : List Task), u.strand ≠ .subscription := List.forall_mem_nil _
  rw [step_of_ready ht rfl]
  simp only [stepTask, beatOf?, Task.seeks?, Option.map_none]
  cases hclosed : m.session.state.isClosed with
  | true =>
    have hstep : m.stepDetached e j backoff = m.abandon j := if_pos hclosed
    rw [hstep, upkeep_abandon (.refl m) hn hup hfew]
    exact .abandons (.inl hclosed) rfl
  | false =>
    by_cases hle : e.settings.resubscribe.maxAttempts ≤ backoff.failures
    · have hstep : m.stepDetached e j backoff = m.abandon j := by
        simp [stepDetached, hclosed, Retry.Backoff.next, hle]
      rw [hstep, upkeep_abandon (.refl m) hn hup hfew]
      exact .abandons (.inr hle) rfl
    · cases hdrawn : e.settings.resubscribe.drawn? backoff.failures (e.factor m.timers) with
      | none =>
        have hstep : m.stepDetached e j backoff = { m with stuck := true }.dismiss j := by
          simp [stepDetached, hclosed, Retry.Backoff.next, hle, hdrawn]
        have hup' := upkeep_dismiss (u := { m with stuck := true }) ⟨(Grows.refl m).jobs, rfl⟩ hn
          hup hfew
        rw [hstep, hup']
        exact .breaks hclosed (Nat.lt_of_not_le hle) hdrawn
      | some delay =>
        have hstep : m.stepDetached e j backoff =
            (m.timer delay).2.become j (.pause ⟨backoff.failures + 1⟩ (m.timer delay).1) := by
          simp [stepDetached, hclosed, Retry.Backoff.next, hle, hdrawn]
        have hup' := upkeep_become (u := (m.timer delay).2)
          (v := .pause ⟨backoff.failures + 1⟩ (m.timer delay).1) ⟨(Grows.refl m).jobs, rfl⟩ hn hup
          hfew rfl
        rw [hstep, hup']
        exact .pauses hclosed (Nat.lt_of_not_le hle) hdrawn rfl

theorem chore_follow {ticket seen : Nat} {backoff : Retry.Backoff}
    (hup : m.upkeep = [(j, .follow (some (ticket, seen)) backoff)])
    (hready : m.readyTask e j (.follow (some (ticket, seen)) backoff) = true) :
    Chore e j m (m.step e j) (.follow (some (ticket, seen)) backoff)
      (m.beatOf? (.follow (some (ticket, seen)) backoff)) (m.step e j).upkeep := by
  have ht := task?_of_upkeep hn (hup ▸ List.mem_singleton_self _)
  have hstays {v : Task} (hv : v.strand = .subscription) : (m.become j v).upkeep = [(j, v)] :=
    upkeep_become (.refl m) hn hup (List.forall_mem_nil _) hv
  rw [step_of_ready ht hready]
  simp only [stepTask, stepFollow, beatOf?]
  cases hnotice : (m.session.state.subscriptions.mailbox ticket).notices[seen]? with
  | none =>
    have hdetached : (m.session.state.subscriptions.mailbox ticket).attached = false := by
      have hlength := List.getElem?_eq_none_iff.mp hnotice
      simpa [readyTask, Nat.not_lt.mpr hlength] using hready
    simp only [Option.map_none, hstays (v := .follow none backoff) rfl]
    exact .ends hnotice hdetached
  | some notice =>
    cases notice with
    | diff update =>
      obtain ⟨new, hgrows, hwithin⟩ := (Swells.refl .other m).route update
      have hother : ∀ u ∈ new, u.strand ≠ .subscription := fun u hu => by
        rw [(hwithin u hu).elim id id]
        decide
      simp only [Option.map_some, upkeep_become (v := .follow (some (ticket, seen + 1)) {}) hgrows
        hn hup hother rfl]
      exact .hears hnotice
    | refused message =>
      simp only [Option.map_some, hstays (v := .follow (some (ticket, seen + 1)) backoff) rfl]
      exact .hears hnotice
    | quit =>
      simp only [Option.map_some, hstays (v := .follow (some (ticket, seen + 1)) backoff) rfl]
      exact .hears hnotice

theorem chore_sending (hup : m.upkeep = [(j, .sending p)])
    (hready : m.readyTask e j (.sending p) = true) :
    Chore e j m (m.step e j) (.sending p) (m.beatOf? (.sending p)) (m.step e j).upkeep := by
  have hmem : (j, Task.sending p) ∈ m.upkeep := hup ▸ List.mem_singleton_self _
  have ht := task?_of_upkeep hn hmem
  have hj : j < m.born := hn.below _ (mem_of_task? ht)
  have hstrand : (Task.sending p).strand = .subscription := (mem_upkeep.mp hmem).2
  obtain ⟨q, hq⟩ : ∃ q, p.renews? = some q := by
    cases p with
    | serve | resubscribe => exact ⟨_, rfl⟩
    | _ => cases hstrand
  rw [step_of_ready ht hready]
  simp only [stepTask, beatOf?, hq, Option.bind_some]
  rcases stepSending_cases hready with hputs | ⟨a, u, hpass, heq⟩
  · rw [hputs.goesOn, upkeep_of_next (hputs.grows.stays hn ht) hn hup (List.forall_mem_nil _)
      fun _ hu => Option.some.inj hu ▸ hstrand]
    exact .puts hq hputs
  · obtain ⟨new, hgrows, hnew⟩ := hpass.grows
    have hstreams : ∀ u ∈ new, u.strand ≠ .subscription := fun u hu => by
      rw [hnew u hu]
      decide
    have hpasses := hpass.passes_sent (e := e) p
    rw [heq, hpass.ends]
    cases p with
    | serve caller ticket =>
      obtain rfl := Option.some.inj hq
      have hfollow (current : Option (Nat × Nat)) := hgrows.spawn (.follow current {})
      cases a with
      | ok =>
        have hup' := upkeep_of_born ((hfollow (some (ticket, 0))).finish hj caller (.ok .null)
          none) hn hup hstreams rfl
        rw [sent, hup']
        exact .opens rfl hpass.ends
      | error f =>
        have hup' := upkeep_of_born ((hfollow none).finish hj caller (.relay (.session f)) none) hn
          hup hstreams rfl
        rw [sent, hup']
        exact .fails rfl hpass.ends hpasses fun _ h => by cases h
    | resubscribe ticket backoff =>
      obtain rfl := Option.some.inj hq
      have hbecome {v : Task} (hv : v.strand = .subscription) :=
        upkeep_become (v := v) hgrows hn hup hstreams hv
      cases a with
      | ok =>
        rw [sent, hbecome rfl]
        exact .opens rfl hpass.ends
      | error f =>
        cases f with
        | closed =>
          rw [sent, upkeep_abandon hgrows hn hup hstreams]
          refine .failsClosed hpass.ends hpasses ?_
          exact congrArg (Pending.failAll · .subscriptionLost) hpass.pending
        | _ =>
          rw [sent, hbecome rfl]
          · exact .fails rfl hpass.ends hpasses fun h => by cases h
          · exact fun h => by cases h
    | _ => cases hstrand

theorem chore (hup : m.upkeep = [(j, t)]) (hready : m.readyTask e j t = true) :
    Chore e j m (m.step e j) t (m.beatOf? t) (m.step e j).upkeep := by
  have hstrand : t.strand = .subscription := (mem_upkeep.mp (hup ▸ List.mem_singleton_self _)).2
  cases t with
  | start caller c =>
    cases c with
    | serve => exact chore_serve hn hup
    | _ => cases hstrand
  | sending p => exact chore_sending hn hup hready
  | follow current backoff =>
    cases current with
    | none => exact chore_detached hn hup
    | some q => exact chore_follow hn hup hready
  | pause backoff d => exact chore_pause hn hup hready
  | _ => cases hstrand

/-- The job that gives up leaves no other to keep the subscription up, and the pending requests
fail. -/
theorem discreet_abandon (hup : m.upkeep = [(j, t)]) (hg : Grows new m u)
    (hnew : ∀ v ∈ new, v.strand ≠ .subscription) (hd : Discreet m u) :
    (u.abandon j).upkeep = [] ∧ Discreet m.failPending (u.abandon j) :=
  ⟨upkeep_abandon hg hn hup hnew, congrArg (Pending.failAll · .subscriptionLost) hd.pending,
    hd.messages⟩

theorem discreet_sending (hup : m.upkeep = [(j, .sending p)])
    (hready : m.readyTask e j (.sending p) = true) :
    Discreet m (m.stepTask e j (.sending p)) ∨
      (m.stepTask e j (.sending p)).upkeep = [] ∧
        Discreet m.failPending (m.stepTask e j (.sending p)) := by
  rcases stepSending_cases hready with hputs | ⟨a, u, hpass, heq⟩
  · exact .inl (.puts hputs)
  · obtain ⟨new, hgrows, hnew⟩ := hpass.grows
    have hpassed := Discreet.passesOn hpass
    have hstrand : (Task.sending p).strand = .subscription :=
      (mem_upkeep.mp (hup ▸ List.mem_singleton_self _)).2
    rw [stepTask, heq]
    cases p with
    | serve caller ticket =>
      cases a <;> exact .inl ((hpassed.of_log (v := u.spawn _) rfl rfl).finish j caller _ none)
    | resubscribe ticket backoff =>
      cases a with
      | ok => exact .inl (hpassed.of_log rfl rfl)
      | error f =>
        cases f with
        | closed =>
          refine .inr (discreet_abandon hn hup hgrows (fun v hv => ?_) hpassed)
          rw [hnew v hv]
          decide
        | _ => exact .inl (hpassed.of_log rfl rfl)
    | _ => cases hstrand

/-- A step of the job that takes no diff off the subscription has nothing to route. The editor
notices nothing of it, nor do the pending requests, unless they fail because the job is over. -/
theorem discreet_of_unheard (hup : m.upkeep = [(j, t)]) (hready : m.readyTask e j t = true)
    (hunheard : ∀ update, m.beatOf? t ≠ some (.hears (.diff update))) :
    Discreet m (m.step e j) ∨
      (m.step e j).upkeep = [] ∧ Discreet m.failPending (m.step e j) := by
  have hmem : (j, t) ∈ m.upkeep := hup ▸ List.mem_singleton_self _
  have hstrand : t.strand = .subscription := (mem_upkeep.mp hmem).2
  have hrefl := Discreet.refl m
  have hgone := discreet_abandon hn hup (.refl m) (List.forall_mem_nil _) hrefl
  rw [step_of_ready (task?_of_upkeep hn hmem) hready]
  cases t with
  | start caller c =>
    cases c with
    | serve =>
      simp only [stepTask, stepStart]
      split
      · next h => exact .inl ((discreet_of_call h).of_log rfl rfl)
      · exact .inl ((hrefl.of_log (v := m.spawn _) rfl rfl).finish j caller _ none)
    | _ => cases hstrand
  | pause backoff d =>
    simp only [stepTask, stepPause]
    split
    · next h => exact .inl ((discreet_of_call h).of_log rfl rfl)
    · exact .inr hgone
  | follow current backoff =>
    cases current with
    | none =>
      simp only [stepTask, stepDetached]
      split_ifs
      · exact .inr hgone
      · split
        · exact .inr hgone
        · split <;> exact .inl (hrefl.of_log rfl rfl)
    | some q =>
      simp only [stepTask, stepFollow]
      split
      · next update hnotice =>
        exact absurd (by rw [beatOf?, hnotice, Option.map_some]) (hunheard update)
      all_goals exact .inl (hrefl.of_log rfl rfl)
  | sending p => exact discreet_sending hn hup hready
  | _ => cases hstrand

end Chores

end Machine

end ShipBridge.Relay
