import ShipBridge.Proofs.Relay.FunctionEffects

/-!
# The successors of a job

A step has its job go on to something, or ends it, and sets a few new jobs going; all other jobs
stay as they are. Jobs belong to one of three strands: they see a notification through, they keep
the subscription up, or they do neither. Whatever a step leads to belongs to the strand of its job
or to neither of the two, unless the step begins to handle a notification.
-/

namespace ShipBridge.Relay

inductive Strand where
  | notification
  | subscription
  | other
deriving DecidableEq

def Task.strand : Task → Strand
  | .start _ (.notify ..) | .sending (.notification ..) | .sending (.copy ..) => .notification
  | .watch .. | .redeliver .. => .notification
  | .start _ .serve | .sending (.serve ..) | .sending (.resubscribe ..) => .subscription
  | .follow .. | .pause .. => .subscription
  | _ => .other

/-- A task of this strand, or of neither of the two that are told apart. -/
def Task.Within (s : Strand) (t : Task) : Prop := t.strand = .other ∨ t.strand = s

/-- A notification that is to be passed on, and on whose behalf. -/
structure Notification where
  source : Source
  method : String
  params : Option Json

def numberedFrom : Nat → List Task → List (Nat × Task)
  | _, [] => []
  | n, t :: ts => (n, t) :: numberedFrom (n + 1) ts

theorem numberedFrom_append (n : Nat) (ts us : List Task) :
    numberedFrom n (ts ++ us) = numberedFrom n ts ++ numberedFrom (n + ts.length) us := by
  induction ts generalizing n with
  | nil => rfl
  | cons t ts ih =>
    rw [List.cons_append, numberedFrom, ih, numberedFrom, List.cons_append, List.length_cons,
      Nat.add_assoc, Nat.add_comm 1]

theorem le_of_mem_numberedFrom {n : Nat} {ts : List Task} {p : Nat × Task}
    (h : p ∈ numberedFrom n ts) : n ≤ p.1 ∧ p.2 ∈ ts := by
  induction ts generalizing n with
  | nil => cases h
  | cons t ts ih =>
    rcases List.mem_cons.mp h with rfl | h
    · exact ⟨Nat.le_refl n, List.mem_cons_self⟩
    · obtain ⟨hle, hmem⟩ := ih h
      exact ⟨Nat.le_of_succ_le hle, List.mem_cons_of_mem t hmem⟩

/-- The jobs when job `j` has gone on to `next`, or is over. -/
def goOn (j : Nat) (next : Option Task) (jobs : List (Nat × Task)) : List (Nat × Task) :=
  jobs.filterMap fun p => if p.1 = j then next.map (Prod.mk j) else some p

theorem goOn_append (j : Nat) (next : Option Task) (jobs more : List (Nat × Task)) :
    goOn j next (jobs ++ more) = goOn j next jobs ++ goOn j next more := List.filterMap_append

theorem goOn_of_ne {j : Nat} (next : Option Task) {jobs : List (Nat × Task)}
    (h : ∀ p ∈ jobs, p.1 ≠ j) : goOn j next jobs = jobs := by
  have hsome : goOn j next jobs = jobs.filterMap some :=
    List.filterMap_congr fun p hp => if_neg (h p hp)
  rw [hsome, List.filterMap_some]

namespace Machine

variable {e : Surroundings} {m m' u v : Machine} {j i : Nat} {t : Task} {s : Strand}
  {next : Option Task} {new : List Task}

structure Grows (new : List Task) (m m' : Machine) : Prop where
  jobs : m'.jobs = m.jobs ++ numberedFrom m.born new
  born : m'.born = m.born + new.length

/-- Job `j` has gone on to `next`, or is over, and new jobs have been set going. -/
structure Sequel (j : Nat) (next : Option Task) (new : List Task) (m m' : Machine) : Prop where
  jobs : m'.jobs = goOn j next m.jobs ++ numberedFrom m.born new
  born : m'.born = m.born + new.length

theorem Grows.refl (m : Machine) : Grows [] m m := ⟨(List.append_nil _).symm, rfl⟩

theorem Grows.of_jobs (h : Grows new m u) (hjobs : v.jobs = u.jobs) (hborn : v.born = u.born) :
    Grows new m v := ⟨hjobs.trans h.jobs, hborn.trans h.born⟩

theorem Grows.spawn (h : Grows new m u) (t : Task) : Grows (new ++ [t]) m (u.spawn t) where
  jobs := by
    rw [Machine.spawn, h.jobs, h.born, numberedFrom_append, List.append_assoc]
    rfl
  born := by
    rw [List.length_append, ← Nat.add_assoc, ← h.born]
    rfl

theorem Grows.goOn (h : Grows new m u) (hj : j < m.born) (next : Option Task) :
    goOn j next u.jobs = goOn j next m.jobs ++ numberedFrom m.born new := by
  have hne : ∀ p ∈ numberedFrom m.born new, p.1 ≠ j := fun p hp =>
    Nat.ne_of_gt (Nat.lt_of_lt_of_le hj (le_of_mem_numberedFrom hp).1)
  rw [h.jobs, goOn_append, goOn_of_ne next hne]

theorem Grows.become (h : Grows new m u) (hj : j < m.born) (t : Task) :
    Sequel j (some t) new m (u.become j t) where
  jobs := by
    rw [← h.goOn hj, Relay.goOn, Machine.become, ← List.filterMap_eq_map]
    refine List.filterMap_congr fun p _ => ?_
    by_cases hp : p.1 = j <;> simp [hp]
  born := h.born

theorem Grows.dismiss (h : Grows new m u) (hj : j < m.born) :
    Sequel j none new m (u.dismiss j) where
  jobs := by
    rw [← h.goOn hj, Relay.goOn, Machine.dismiss, ← List.filterMap_eq_filter]
    refine List.filterMap_congr fun p _ => ?_
    by_cases hp : p.1 = j <;> simp [hp]
  born := h.born

theorem Grows.finish (h : Grows new m u) (hj : j < m.born) (caller : Nat) (r : Result)
    (held : Option Holding) : Sequel j none new m (u.finish j caller r held) :=
  Grows.dismiss (u := u.emit (.finished caller r held)) ⟨h.jobs, h.born⟩ hj

/-- A job that has something to do goes on to the same if nothing is done about it. -/
theorem Grows.stays (h : Grows new m u) (hn : m.Numbered) (ht : m.task? j = some t) :
    Sequel j (some t) new m u where
  jobs := by
    have hsame : Relay.goOn j (some t) m.jobs = m.jobs.filterMap some := by
      refine List.filterMap_congr fun p hp => ?_
      split_ifs with hpj
      · obtain ⟨i, v⟩ := p
        obtain rfl : i = j := hpj
        rw [hn.task?_of_mem hp] at ht
        rw [Option.some.inj ht]
        rfl
      · rfl
    rw [h.jobs, hsame, List.filterMap_some]
  born := h.born

/-! ## What a sequel leaves to the others -/

theorem Sequel.mem_iff (h : Sequel j next new m m') {p : Nat × Task} : p ∈ m'.jobs ↔
    (p ∈ m.jobs ∧ p.1 ≠ j) ∨ (next = some p.2 ∧ p.1 = j ∧ ∃ t, (j, t) ∈ m.jobs) ∨
      p ∈ numberedFrom m.born new := by
  rw [h.jobs, List.mem_append, goOn, List.mem_filterMap, ← or_assoc]
  refine or_congr_left ⟨?_, ?_⟩
  · rintro ⟨q, hq, hp⟩
    split_ifs at hp with hqj
    · obtain ⟨t, rfl, rfl⟩ := Option.map_eq_some_iff.mp hp
      exact .inr ⟨rfl, rfl, q.2, hqj ▸ hq⟩
    · obtain rfl := Option.some.inj hp
      exact .inl ⟨hq, hqj⟩
  · rintro (⟨hp, hne⟩ | ⟨hnext, hpj, t, ht⟩)
    · exact ⟨p, hp, if_neg hne⟩
    · refine ⟨(j, t), ht, ?_⟩
      rw [if_pos rfl, hnext, Option.map_some, ← hpj]

theorem Sequel.task?_of_ne (h : Sequel j next new m m') (hn' : m'.Numbered) (hi : i ≠ j)
    (ht : m.task? i = some t) : m'.task? i = some t :=
  hn'.task?_of_mem (h.mem_iff.mpr (.inl ⟨mem_of_task? ht, hi⟩))

theorem Sequel.task?_self (h : Sequel j next new m m') (hn : m.Numbered) (hn' : m'.Numbered)
    (ht : m.task? j = some t) : m'.task? j = next := by
  cases next with
  | some u => exact hn'.task?_of_mem (h.mem_iff.mpr (.inr (.inl ⟨rfl, rfl, t, mem_of_task? ht⟩)))
  | none =>
    refine List.lookup_eq_none_iff.mpr fun p hp => ?_
    have hlt : j < m.born := hn.below _ (mem_of_task? ht)
    rcases h.mem_iff.mp hp with ⟨-, hne⟩ | ⟨hnone, -⟩ | hnew
    · simpa using hne.symm
    · cases hnone
    · have hle := (le_of_mem_numberedFrom hnew).1
      rw [bne_iff_ne]
      omega

theorem Sequel.task?_born (h : Sequel j next new m m') (hn' : m'.Numbered) {k : Nat}
    (hk : new[k]? = some t) : m'.task? (m.born + k) = some t := by
  refine hn'.task?_of_mem (h.mem_iff.mpr (.inr (.inr ?_)))
  clear h
  generalize m.born = n
  induction new generalizing n k with
  | nil => cases hk
  | cons u new ih =>
    cases k with
    | zero =>
      obtain rfl := Option.some.inj hk
      exact List.mem_cons_self
    | succ k =>
      rw [Nat.add_succ, ← Nat.succ_add]
      exact List.mem_cons_of_mem _ (ih hk (n + 1))

/-- The jobs before and after, with job `j` taken out of both. -/
theorem Sequel.split (h : Sequel j next new m m') (hn : m.Numbered) (ht : m.task? j = some t) :
    ∃ l r, m.jobs = l ++ (j, t) :: r ∧
      m'.jobs = l ++ next.toList.map (Prod.mk j) ++ r ++ numberedFrom m.born new := by
  obtain ⟨l, r, hsplit⟩ := List.append_of_mem (mem_of_task? ht)
  refine ⟨l, r, hsplit, ?_⟩
  have hdistinct := hn.distinct
  rw [hsplit, List.map_append, List.map_cons] at hdistinct
  obtain ⟨-, hr, hl⟩ := List.nodup_append.mp hdistinct
  have hnotin : ∀ p ∈ l, p.1 ≠ j := fun p hp =>
    hl p.1 (List.mem_map_of_mem hp) j List.mem_cons_self
  have hnotin' : ∀ p ∈ r, p.1 ≠ j := by
    rintro p hp rfl
    exact (List.nodup_cons.mp hr).1 (List.mem_map.mpr ⟨p, hp, rfl⟩)
  have hself : goOn j next [(j, t)] = next.toList.map (Prod.mk j) := by
    cases next <;> simp [goOn]
  rw [h.jobs, hsplit, ← List.singleton_append, goOn_append, goOn_append, goOn_of_ne next hnotin,
    goOn_of_ne next hnotin', hself]
  simp only [List.append_assoc]

theorem flatMap_numberedFrom {α : Type} (f : Task → List α) (n : Nat) (ts : List Task) :
    (numberedFrom n ts).flatMap (fun p => f p.2) = ts.flatMap f := by
  induction ts generalizing n with
  | nil => rfl
  | cons t ts ih => rw [numberedFrom, List.flatMap_cons, List.flatMap_cons, ih]

/-- What is collected from all tasks changes by what the tasks of a sequel give. -/
theorem Sequel.flatMap_perm {α : Type} (f : Task → List α) (h : Sequel j next new m m')
    (hn : m.Numbered) (ht : m.task? j = some t) :
    (m'.jobs.flatMap (fun p => f p.2) ++ f t).Perm
      (m.jobs.flatMap (fun p => f p.2) ++ (next.toList ++ new).flatMap f) := by
  obtain ⟨l, r, hm, hm'⟩ := h.split hn ht
  have hnext : (next.toList.map (Prod.mk j)).flatMap (fun p => f p.2) = next.toList.flatMap f := by
    cases next <;> simp
  classical
  simp only [hm, hm', List.flatMap_append, List.flatMap_cons, flatMap_numberedFrom, hnext]
  refine List.perm_iff_count.mpr fun a => ?_
  simp only [List.count_append]
  omega

/-! ## Strands -/

/-- Only jobs of this strand, or of neither, have been set going. -/
def Swells (s : Strand) (m m' : Machine) : Prop := ∃ new, Grows new m m' ∧ ∀ t ∈ new, t.Within s

/-- A step of job `j` leads to nothing but this strand, or to neither. -/
def Leads (s : Strand) (j : Nat) (m m' : Machine) : Prop :=
  ∃ next new, Sequel j next new m m' ∧ ∀ t ∈ next.toList ++ new, t.Within s

namespace Swells

theorem refl (s : Strand) (m : Machine) : Swells s m m := ⟨[], .refl m, nofun⟩

theorem of_jobs (h : Swells s m u) (hjobs : v.jobs = u.jobs) (hborn : v.born = u.born) :
    Swells s m v := h.imp fun _ hnew => ⟨hnew.1.of_jobs hjobs hborn, hnew.2⟩

theorem spawn (h : Swells s m u) (ht : t.Within s) : Swells s m (u.spawn t) := by
  obtain ⟨new, hg, hnew⟩ := h
  refine ⟨new ++ [t], hg.spawn t, fun w hw => ?_⟩
  rcases List.mem_append.mp hw with hw | hw
  · exact hnew w hw
  · rwa [List.mem_singleton.mp hw]

theorem become (h : Swells s m u) (hj : j < m.born) (ht : t.Within s) :
    Leads s j m (u.become j t) := by
  obtain ⟨new, hg, hnew⟩ := h
  refine ⟨some t, new, hg.become hj t, fun w hw => ?_⟩
  rcases List.mem_cons.mp hw with rfl | hw
  · exact ht
  · exact hnew w hw

theorem dismiss (h : Swells s m u) (hj : j < m.born) : Leads s j m (u.dismiss j) := by
  obtain ⟨new, hg, hnew⟩ := h
  exact ⟨none, new, hg.dismiss hj, hnew⟩

theorem finish (h : Swells s m u) (hj : j < m.born) (caller : Nat) (r : Result)
    (held : Option Holding) : Leads s j m (u.finish j caller r held) :=
  (h.of_jobs (v := u.emit (.finished caller r held)) rfl rfl).dismiss hj

theorem stays (h : Swells s m u) (hn : m.Numbered) (ht : m.task? j = some t) (hs : t.Within s) :
    Leads s j m u := by
  obtain ⟨new, hg, hnew⟩ := h
  refine ⟨some t, new, hg.stays hn ht, fun w hw => ?_⟩
  rcases List.mem_cons.mp hw with rfl | hw
  · exact hs
  · exact hnew w hw

theorem send (h : Swells s m u) (message : Editor.Message) : Swells s m (u.send message).2 := by
  unfold Machine.send
  split
  · exact h.of_jobs rfl rfl
  · exact (h.of_jobs (v := { u with outlet := .failing }) rfl rfl).spawn (.inl rfl)
  · exact h
  · exact h

theorem route (h : Swells s m u) (update : Json) : Swells s m (u.route update) := by
  unfold Machine.route
  split
  · exact h.of_jobs rfl rfl
  · exact h.send _
  · exact h

theorem withSession (h : Swells s m u) (x : Session) : Swells s m (u.withSession x) := by
  unfold Machine.withSession
  dsimp only
  split_ifs
  · exact (h.of_jobs (v := { u with session := x }) rfl rfl).spawn (.inl rfl)
  · exact h.of_jobs rfl rfl

theorem call? (h : Swells s m u) {i : Nat} {r : Session.Request} {receipt : Session.Receipt}
    (hc : u.call? i r = some (receipt, v)) : Swells s m v := by
  obtain ⟨⟨receipt', x⟩, -, heq⟩ := Option.map_eq_some_iff.mp hc
  obtain ⟨-, rfl⟩ := Prod.mk.inj heq
  exact h.withSession x

theorem forward? (h : Swells s m u) (i : Nat) (method : String) (params : Option Json) :
    Swells s m (u.forward? e i method params).2 := by
  simp only [Machine.forward?]
  split
  · next hc =>
    exact (h.of_jobs (v := { u with
      pending := (u.pending.enter (e.correlate (u.issued + 1))).2, issued := u.issued + 1 })
      rfl rfl).call? hc
  · exact h.of_jobs rfl rfl

theorem tell (h : Swells s m u) (hj : j < m.born) (origin : Origin) (o : Outcome) :
    Leads s j m (u.tell j origin o) := by
  cases origin with
  | caller n => exact h.finish hj n _ none
  | editor conversation id => exact (h.send _).dismiss hj

theorem conclude (h : Swells s m u) (hj : j < m.born) (origin : Origin) (f : Forwarded)
    (o : Outcome) : Leads s j m (u.conclude j origin f o) := by
  cases o with
  | ok v => exact h.tell hj origin (.ok v)
  | error fault => exact (h.of_jobs (v := { u with
      pending := u.pending.erase f.correlation, session := (u.session.forget f.poke).2 })
      rfl rfl).tell hj origin (.error fault)

theorem afterNotification (h : Swells .notification m u) (method : String) (envelope : Json) :
    Swells .notification m (u.afterNotification e method envelope) := by
  unfold Machine.afterNotification
  split_ifs
  · exact (h.of_jobs (v := (u.timer e.settings.notificationDelay).2) rfl rfl).spawn (.inr rfl)
  · exact h

theorem resume (h : Swells s m u) (hj : j < m.born) (source : Source) (method : String) :
    Leads s j m (u.resume j source method) := by
  cases source with
  | caller n => exact h.finish hj n _ none
  | editor conversation =>
    simp only [Machine.resume]
    split_ifs
    · exact h.finish hj conversation _ none
    · exact h.become hj (.inl rfl)

theorem startAwait (h : Swells s m u) (hj : j < m.born) (origin : Origin) (f : Forwarded) :
    Leads s j m (u.startAwait e j origin f) := by
  have htimer := h.of_jobs (v := (u.timer e.settings.requestTimeout).2) rfl rfl
  cases origin with
  | caller n => exact htimer.become hj (.inl rfl)
  | editor conversation id =>
    exact (htimer.spawn (t := .await (.editor conversation id) f
      (u.timer e.settings.requestTimeout).1) (.inl rfl)).become hj (.inl rfl)

theorem refuse (h : Swells s m u) (hj : j < m.born) (origin : Origin) (f : Fault) :
    Leads s j m (u.refuse j origin f) := by
  cases origin with
  | caller n => exact h.finish hj n _ none
  | editor conversation id => exact (h.send _).become hj (.inl rfl)

theorem sent (h : Swells (Task.sending p).strand m u) (hj : j < m.born) (a : Session.Answer) :
    Leads (Task.sending p).strand j m (u.sent e j p a) := by
  have htimer := h.of_jobs (v := (u.timer e.settings.requestTimeout).2) rfl rfl
  cases p with
  | poke caller id ticket wait =>
    cases a with
    | ok =>
      simp only [Machine.sent]
      split_ifs
      · exact h.become hj (.inl rfl)
      · exact h.finish hj caller _ _
    | error f => exact h.finish hj caller _ none
  | subscribe caller id ticket => cases a <;> exact h.finish hj caller _ _
  | unsubscribe caller => cases a <;> exact h.finish hj caller _ _
  | acknowledge => cases a <;> exact h.dismiss hj
  | serve caller ticket =>
    have hfollow (current : Option (Nat × Nat)) :
        Swells .subscription m (u.spawn (.follow current {})) := h.spawn (.inr rfl)
    cases a with
    | ok => exact (hfollow (some (ticket, 0))).finish hj caller _ none
    | error f => exact (hfollow none).finish hj caller _ none
  | resubscribe ticket backoff =>
    cases a with
    | ok => exact h.become hj (.inr rfl)
    | error f =>
      cases f with
      | closed => exact (h.of_jobs (v := u.failPending) rfl rfl).dismiss hj
      | _ => exact h.become hj (.inr rfl)
  | notification source method envelope id ticket =>
    cases a with
    | ok =>
      have hwatch : Swells .notification m (u.spawnWatch e id ticket) :=
        Swells.spawn htimer (.inr rfl)
      exact (hwatch.afterNotification method envelope).resume hj source method
    | error f => exact (h.afterNotification method envelope).resume hj source method
  | copy id ticket =>
    cases a with
    | ok => exact htimer.become hj (.inr rfl)
    | error f => exact h.dismiss hj
  | request origin f =>
    cases a with
    | ok => exact h.startAwait hj origin f
    | error fault => exact (h.of_jobs (v := { u with
        pending := u.pending.erase f.correlation }) rfl rfl).refuse hj origin _
  | forward caller f =>
    cases a with
    | ok => exact h.finish hj caller _ _
    | error fault => exact (h.of_jobs (v := { u with
        pending := u.pending.erase f.correlation }) rfl rfl).finish hj caller _ none

theorem request (h : Swells s m u) (hj : j < m.born) (origin : Origin) (method : String)
    (params : Option Json) : Leads s j m (u.request e j origin method params) := by
  have hforward := h.forward? (e := e) j method params
  unfold Machine.request
  split_ifs
  · cases origin with
    | caller n => exact h.finish hj n _ none
    | editor conversation id => exact (h.send _).become hj (.inl rfl)
  · split
    · next hf =>
      rw [hf] at hforward
      exact hforward.become hj (.inl rfl)
    · next hf =>
      rw [hf] at hforward
      exact hforward.refuse hj origin _

end Swells

/-! ## Steps -/

section Steps

variable (e m)

def handles? : Task → Option Notification
  | .start caller (.notify method params) => some ⟨.caller caller, method, params⟩
  | .converse conversation =>
    match Editor.Framing.scan e.limit m.inputEnded m.input with
    | .frame body _ => match Editor.Turn.ofBody body with
      | .notification method params => some ⟨.editor conversation, method, params⟩
      | _ => none
    | _ => none
  | _ => none

variable {e m} (hj : j < m.born)

include hj

theorem stepStart_leads (caller : Nat) {c : Call} (hc : m.handles? e (.start caller c) = none) :
    Leads (Task.start caller c).strand j m (m.stepStart e j caller c) := by
  have hrefl := Swells.refl (Task.start caller c).strand m
  cases c with
  | notify method params => cases hc
  | poke | subscribe | unsubscribe =>
    simp only [stepStart]
    split
    · next h => exact (hrefl.call? h).become hj (.inl rfl)
    · exact hrefl.finish hj caller _ none
  | outcome ticket => exact hrefl.become hj (.inl rfl)
  | close =>
    simp only [stepStart]
    split_ifs
    · exact (hrefl.of_jobs (v := { m with
        session := m.session.close.2, discarded := none }.emit .discard) rfl rfl).become hj
        (t := .closing caller) (.inl rfl)
    · exact (hrefl.of_jobs (v := { m with session := m.session.close.2 }) rfl rfl).finish hj
        caller _ none
  | serve =>
    simp only [stepStart]
    split
    · next h => exact (hrefl.call? h).become hj (.inr rfl)
    · exact (hrefl.spawn (t := .follow none {}) (.inr rfl)).finish hj caller _ none
  | request method params => exact hrefl.request hj _ method params
  | forward method params =>
    have hforward := hrefl.forward? (e := e) j method params
    simp only [stepStart]
    split
    · next hf =>
      rw [hf] at hforward
      exact hforward.become hj (.inl rfl)
    · next hf =>
      rw [hf] at hforward
      exact hforward.finish hj caller _ none
  | await f => exact hrefl.startAwait hj (.caller caller) f
  | converse => exact hrefl.become hj (.inl rfl)

theorem stepDetached_leads (backoff : Retry.Backoff) :
    Leads .subscription j m (m.stepDetached e j backoff) := by
  have habandon : Leads .subscription j m (m.abandon j) :=
    ((Swells.refl _ m).of_jobs (v := m.failPending) rfl rfl).dismiss hj
  unfold stepDetached
  split_ifs
  · exact habandon
  · split
    · exact habandon
    · split
      · exact ((Swells.refl _ m).of_jobs (v := { m with stuck := true }) rfl rfl).dismiss hj
      · next d _ =>
        exact ((Swells.refl _ m).of_jobs (v := (m.timer d).2) rfl rfl).become hj (.inr rfl)

theorem stepFollow_leads (ticket seen : Nat) (backoff : Retry.Backoff) :
    Leads .subscription j m (m.stepFollow j ticket seen backoff) := by
  have hrefl := Swells.refl .subscription m
  unfold stepFollow
  dsimp only
  split
  · exact (hrefl.route _).become hj (.inr rfl)
  · exact hrefl.become hj (.inr rfl)
  · exact hrefl.become hj (.inr rfl)
  · exact hrefl.become hj (.inr rfl)

theorem failStream_leads : Leads .other j m (m.failStream e j) := by
  have hfailed : Swells .other m { m with
      session := (m.session.fail? e.reconnect.maxAttempts).2, items := [], streamEnded := false
      reached := none } := (Swells.refl _ m).of_jobs rfl rfl
  simp only [failStream, pauseStream]
  split
  · exact hfailed.dismiss hj
  · split
    · exact (hfailed.of_jobs (v := { m with
        session := (m.session.fail? e.reconnect.maxAttempts).2, items := []
        streamEnded := false, reached := none, stuck := true }) rfl rfl).dismiss hj
    · next d _ =>
      exact (hfailed.of_jobs (v := (Machine.timer { m with
        session := (m.session.fail? e.reconnect.maxAttempts).2, items := []
        streamEnded := false, reached := none } d).2) rfl rfl).become hj (.inl rfl)

theorem awakenStream_leads : Leads .other j m (m.awakenStream j) := by
  unfold awakenStream
  split
  · next resume s _ =>
    exact ((Swells.refl _ m).of_jobs (v := { m with session := s, reached := none }.emit
      (.opening resume)) rfl rfl).become hj (t := .stream none) (.inl rfl)
  · next s _ =>
    exact ((Swells.refl _ m).of_jobs (v := { m with session := s }) rfl rfl).dismiss hj

omit hj

theorem stepStream_leads (hn : m.Numbered) {d : Option Timer} (ht : m.task? j = some (.stream d)) :
    Leads .other j m (m.stepStream e j) := by
  have hj : j < m.born := hn.below _ (mem_of_task? ht)
  have hrefl := Swells.refl .other m
  have hstays : Leads .other j m m := hrefl.stays hn ht (.inl rfl)
  unfold stepStream
  split
  · exact (hrefl.of_jobs (v := { m with
      session := m.session.halt, items := [], streamEnded := false }) rfl rfl).dismiss hj
  · split
    · exact awakenStream_leads hj
    · exact awakenStream_leads hj
    · split
      · exact hstays
      · exact failStream_leads hj
      · have hopened : Swells .other m { m with
            session := m.session.opened.2, reached := none, items := [], streamEnded := false } :=
          hrefl.of_jobs rfl rfl
        dsimp only
        split_ifs
        · exact (hopened.spawn (.inl rfl)).stays hn ht (.inl rfl)
        · exact hopened.stays hn ht (.inl rfl)
    · split
      · next event items _ =>
        exact (hrefl.of_jobs (v := { m with
          items, session := m.session.receive event }) rfl rfl).stays hn ht (.inl rfl)
      · exact failStream_leads hj
      · split_ifs
        · exact failStream_leads hj
        · exact hstays
    · exact hrefl.dismiss hj
    · exact hrefl.dismiss hj

theorem step_of_ready (ht : m.task? j = some t) (hready : m.readyTask e j t = true) :
    m.step e j = m.stepTask e j t := by
  rw [step, ht]
  exact if_pos hready

theorem step_of_not_ready (ht : m.task? j = some t) (hready : ¬m.readyTask e j t = true) :
    m.step e j = m := by
  rw [step, ht]
  exact if_neg hready

theorem withSession_grows (m : Machine) (x : Session) :
    ∃ new, Grows new m (m.withSession x) ∧ ∀ t ∈ new, t = .stream none := by
  have hsame : Grows [] m { m with session := x } := (Grows.refl m).of_jobs rfl rfl
  simp only [withSession]
  split_ifs
  · exact ⟨[.stream none], hsame.spawn (.stream none), fun t ht => List.mem_singleton.mp ht⟩
  · exact ⟨[], hsame, fun t ht => absurd ht List.not_mem_nil⟩

/-- The answer with which a sending ends, when its job takes a step. -/
def ending? (m : Machine) : Option Session.Answer :=
  match m.session.proceed? with
  | some (.send _, _) => none
  | some (.done a, _) => some a
  | none => m.delivered

structure Puts (m m' : Machine) : Prop where
  put : ∃ batch, m.session.proceed? = some (.send batch, m'.session) ∧
    m'.log = .put batch :: m.log
  goesOn : m.ending? = none
  grows : Grows [] m m'
  now : m'.now = m.now
  pending : m'.pending = m.pending

/-- The line has been passed on, and the stream may have been born; nothing else has changed. -/
structure PassesOn (j : Nat) (a : Session.Answer) (m u : Machine) : Prop where
  ends : m.ending? = some a
  passes : m.session.Passes j a u.session
  grows : ∃ new, Grows new m u ∧ ∀ t ∈ new, t = .stream none
  now : u.now = m.now
  pending : u.pending = m.pending
  log : u.log = m.log

/-- A job that is sending puts its batch on the way, or its sending ends. -/
theorem stepSending_cases {p : Purpose} (hready : m.readyTask e j (.sending p) = true) :
    Puts m (m.stepSending e j p) ∨
      ∃ a u, PassesOn j a m u ∧ m.stepSending e j p = u.sent e j p a := by
  have hpasses {a : Session.Answer} {d : Option Session.Answer} {x : Session}
      (hend : m.ending? = some a) (h : m.session.Passes j a x) :
      PassesOn j a m ({ m with delivered := d }.withSession x) := by
    obtain ⟨new, hgrows, hnew⟩ := withSession_grows { m with delivered := d } x
    have hsession : ({ m with delivered := d }.withSession x).session = x :=
      withSession_session _ x
    refine ⟨hend, hsession.symm ▸ h, ⟨new, ⟨hgrows.jobs, hgrows.born⟩, hnew⟩, ?_, ?_, ?_⟩
    all_goals
      simp only [withSession]
      split_ifs <;> rfl
  simp only [readyTask, Bool.or_eq_true, beq_iff_eq, Bool.and_eq_true] at hready
  rcases hready with hgranted | ⟨hsending, hdelivered⟩
  · obtain ⟨⟨move, x⟩, hmove⟩ := Session.exists_proceed? hgranted
    rw [stepSending, hmove]
    cases move with
    | send batch =>
      exact .inl ⟨⟨batch, hmove, rfl⟩, by rw [ending?, hmove], (Grows.refl m).of_jobs rfl rfl,
        rfl, rfl⟩
    | done a =>
      have hend : m.ending? = some a := by rw [ending?, hmove]
      exact .inr ⟨a, _, hpasses (d := m.delivered) hend (.inl ⟨hgranted, hmove⟩), rfl⟩
  · obtain ⟨a, ha⟩ := Option.isSome_iff_exists.mp hdelivered
    obtain ⟨x, hsettle⟩ := Session.exists_settle? hsending a
    have hmove : m.session.proceed? = none := by
      cases hmove : m.session.proceed? with
      | none => rfl
      | some q =>
        rw [Session.sending?_of_proceed? hmove] at hsending
        cases hsending
    have hend : m.ending? = some a := by rw [ending?, hmove, ha]
    refine .inr ⟨a, _, hpasses (d := none) hend (.inr ⟨hsending, hsettle⟩), ?_⟩
    rw [stepSending, hmove, ha]
    dsimp only
    rw [hsettle]

theorem stepSending_leads (hn : m.Numbered) {p : Purpose} (ht : m.task? j = some (.sending p))
    (hready : m.readyTask e j (.sending p) = true) :
    Leads (Task.sending p).strand j m (m.stepSending e j p) := by
  rcases stepSending_cases hready with hput | ⟨a, u, hpass, heq⟩
  · exact Swells.stays ⟨[], hput.grows, nofun⟩ hn ht (.inr rfl)
  · obtain ⟨new, hgrows, hnew⟩ := hpass.grows
    have hu : Swells (Task.sending p).strand m u :=
      ⟨new, hgrows, fun t ht => .inl (by rw [hnew t ht]; rfl)⟩
    rw [heq]
    exact hu.sent (hn.below _ (mem_of_task? ht)) a

theorem stepConverse_leads (hn : m.Numbered) {conversation : Nat}
    (ht : m.task? j = some (.converse conversation))
    (hh : m.handles? e (.converse conversation) = none) :
    Leads .other j m (m.stepConverse e j conversation) := by
  have hj : j < m.born := hn.below _ (mem_of_task? ht)
  have hrefl := Swells.refl .other m
  unfold stepConverse
  split
  · next body rest hscan =>
    have hread : Swells .other m { m with input := rest } := hrefl.of_jobs rfl rfl
    cases hturn : Editor.Turn.ofBody body with
    | request id method params => exact hread.request hj _ method params
    | notification method params => simp [handles?, hscan, hturn] at hh
    | passed => exact hread.stays hn ht (.inl rfl)
    | unreadable f =>
      have hsend := hread.send (.unreadable f)
      simp only [stepTurn]
      split
      · next hs =>
        rw [hs] at hsend
        exact hsend.stays hn ht (.inl rfl)
      · next hs =>
        rw [hs] at hsend
        exact hsend.finish hj conversation _ none
  · exact hrefl.finish hj conversation _ none
  · exact hrefl.finish hj conversation _ none
  · exact hrefl.stays hn ht (.inl rfl)

/-- A step that does not begin to handle a notification keeps to the strand of its job. -/
theorem stepTask_leads (hn : m.Numbered) (ht : m.task? j = some t)
    (hready : m.readyTask e j t = true) (hh : m.handles? e t = none) :
    Leads t.strand j m (m.stepTask e j t) := by
  have hj : j < m.born := hn.below _ (mem_of_task? ht)
  have hrefl := Swells.refl t.strand m
  have hstays : Leads t.strand j m m := hrefl.stays hn ht (.inr rfl)
  cases t with
  | start caller c => exact stepStart_leads hj caller hh
  | sending p => exact stepSending_leads hn ht hready
  | stream d => exact stepStream_leads hn ht
  | converse conversation => exact stepConverse_leads hn ht hh
  | hangUp => exact (hrefl.of_jobs (v := { m with outlet := .gone }) rfl rfl).dismiss hj
  | acknowledge =>
    exact (hrefl.of_jobs (v := { m with session := m.session.callAcknowledge j }) rfl rfl).become
      hj (t := .sending .acknowledge) (.inl rfl)
  | outcome caller ticket =>
    simp only [stepTask]
    split
    · exact hrefl.finish hj caller _ none
    · exact hrefl.finish hj caller _ none
    · exact hstays
  | closing caller =>
    simp only [stepTask]
    split
    · exact hrefl.finish hj caller _ none
    · exact hrefl.finish hj caller _ none
    · exact hstays
  | watch id ticket d =>
    simp only [stepTask]
    split
    · exact hrefl.dismiss hj
    · split_ifs
      · exact (hrefl.of_jobs (v := { m with session := (m.session.forget id).2 }) rfl rfl).dismiss
          hj
      · exact hstays
  | redeliver envelope d =>
    simp only [stepTask]
    split
    · next h => exact (hrefl.call? h).become hj (.inr rfl)
    · exact hrefl.dismiss hj
  | await origin f d =>
    rcases m.stepTask_await e j origin f d with h | ⟨o, h⟩ <;> rw [h]
    · exact hstays
    · exact hrefl.conclude hj origin f o
  | follow current backoff =>
    cases current with
    | none => exact stepDetached_leads hj backoff
    | some p => exact stepFollow_leads hj p.1 p.2 backoff
  | pause backoff d =>
    simp only [stepTask, stepPause]
    split
    · next h => exact (hrefl.call? h).become hj (.inr rfl)
    · exact (hrefl.of_jobs (v := m.failPending) rfl rfl).dismiss hj

end Steps

end Machine

end ShipBridge.Relay
