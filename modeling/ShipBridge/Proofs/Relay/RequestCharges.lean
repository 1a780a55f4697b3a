import ShipBridge.Proofs.Relay.Runs
import ShipBridge.Proofs.Session.Tables

/-!
# Jobs in charge of a request

While a request of the editor is being sent, or waits for its answer, one job is in charge of it.
A charge is told by the number of the slot that the request has been entered under. What a step of
a job does about requests is one of few things: it takes one up, it begins to wait for the answer,
it responds and gives up the charge, it responds on the spot, it complains about a body that is no
message, or nothing at all.
-/

namespace ShipBridge.Relay

open Session (Answer)

/-- The request a job is in charge of: where its answer will be, the editor's id for it, and once
it waits for the answer, until when. -/
structure Charge where
  slot : Nat
  id : Json
  deadline : Option Timer := none
deriving DecidableEq

def Task.charge? : Task → Option Charge
  | .sending (.request (.editor _ id) f) => some { slot := f.slot, id }
  | .await (.editor _ id) f t => some { slot := f.slot, id, deadline := some t }
  | _ => none

/-- A charge with a deadline is that of a job that waits for an answer. -/
theorem Task.await_of_charge {t : Task} {c : Charge} {d : Timer} (hc : t.charge? = some c)
    (hd : c.deadline = some d) :
    ∃ conversation f, t = .await (.editor conversation c.id) f d ∧ f.slot = c.slot := by
  unfold charge? at hc
  split at hc
  · rw [← Option.some.inj hc] at hd
    cases hd
  · next conversation id f t' =>
    obtain rfl := Option.some.inj hc
    obtain rfl := Option.some.inj hd
    exact ⟨conversation, f, rfl, rfl⟩
  · cases hc

def Output.response? : Output → Option Editor.Response
  | .message (.response r) => some r
  | _ => none

namespace Pending

theorem length_resolve (p : Pending) (key : String) (o : Outcome) :
    (p.resolve key o).slots.length = p.slots.length := by
  unfold resolve
  split
  · rfl
  · exact List.length_set

theorem length_failAll (p : Pending) (f : Fault) :
    (p.failAll f).slots.length = p.slots.length := by
  have hfold (es : List (String × Nat)) (slots : List (Option Outcome)) :
      (es.foldl (fun slots e => slots.set e.2 (some (.error f))) slots).length = slots.length := by
    induction es generalizing slots with
    | nil => rfl
    | cons e es ih => rw [List.foldl_cons, ih, List.length_set]
  exact hfold p.entries p.slots

end Pending

namespace Machine

def responses (m : Machine) : List Editor.Response := m.log.filterMap Output.response?

def Charged (m : Machine) (j : Nat) (c : Charge) : Prop := ∃ t, (j, t) ∈ m.jobs ∧ t.charge? = some c

/-- What charges and responses depend on. -/
structure Concern where
  jobs : List (Nat × Task)
  born : Nat
  log : List Output
  pending : Pending
  outlet : Outlet
  now : Nat

def concern (m : Machine) : Concern := ⟨m.jobs, m.born, m.log, m.pending, m.outlet, m.now⟩

/-- Every job has a number of its own, below the number of the next. -/
structure Numbered (m : Machine) : Prop where
  distinct : (m.jobs.map Prod.fst).Nodup
  below : ∀ p ∈ m.jobs, p.1 < m.born

variable {e : Surroundings} {m m' : Machine} {j i : Nat} {t : Task} {c : Charge}
  {said : List Editor.Response}

/-! ## Charges and the list of jobs -/

theorem mem_become {p : Nat × Task} : p ∈ (m.become j t).jobs ↔
    (p ∈ m.jobs ∧ p.1 ≠ j) ∨ (p = (j, t) ∧ ∃ u, (j, u) ∈ m.jobs) := by
  obtain ⟨k, v⟩ := p
  simp only [become, List.mem_map]
  constructor
  · rintro ⟨⟨i, u⟩, hmem, heq⟩
    by_cases hi : i = j
    · subst hi
      rw [if_pos rfl] at heq
      exact .inr ⟨heq.symm, u, hmem⟩
    · rw [if_neg hi] at heq
      obtain ⟨rfl, rfl⟩ := Prod.mk.inj heq
      exact .inl ⟨hmem, hi⟩
  · rintro (⟨hmem, hk⟩ | ⟨heq, u, hu⟩)
    · exact ⟨(k, v), hmem, if_neg hk⟩
    · exact ⟨(j, u), hu, by rw [heq, if_pos rfl]⟩

theorem mem_dismiss {p : Nat × Task} : p ∈ (m.dismiss j).jobs ↔ p ∈ m.jobs ∧ p.1 ≠ j := by
  obtain ⟨k, v⟩ := p
  simp [dismiss]

theorem mem_spawn {p : Nat × Task} : p ∈ (m.spawn t).jobs ↔ p ∈ m.jobs ∨ p = (m.born, t) := by
  simp [spawn]

theorem charged_become : (m.become j t).Charged i c ↔
    (m.Charged i c ∧ i ≠ j) ∨ (i = j ∧ t.charge? = some c ∧ ∃ u, (j, u) ∈ m.jobs) := by
  constructor
  · rintro ⟨u, hmem, hu⟩
    rcases mem_become.mp hmem with ⟨h, hi⟩ | ⟨h, hj⟩
    · exact .inl ⟨⟨u, h, hu⟩, hi⟩
    · obtain ⟨rfl, rfl⟩ := Prod.mk.inj h
      exact .inr ⟨rfl, hu, hj⟩
  · rintro (⟨⟨u, hmem, hu⟩, hi⟩ | ⟨rfl, ht, hj⟩)
    · exact ⟨u, mem_become.mpr (.inl ⟨hmem, hi⟩), hu⟩
    · exact ⟨t, mem_become.mpr (.inr ⟨rfl, hj⟩), ht⟩

theorem charged_dismiss : (m.dismiss j).Charged i c ↔ m.Charged i c ∧ i ≠ j := by
  constructor
  · rintro ⟨u, hmem, hu⟩
    obtain ⟨h, hi⟩ := mem_dismiss.mp hmem
    exact ⟨⟨u, h, hu⟩, hi⟩
  · rintro ⟨⟨u, hmem, hu⟩, hi⟩
    exact ⟨u, mem_dismiss.mpr ⟨hmem, hi⟩, hu⟩

theorem charged_spawn : (m.spawn t).Charged i c ↔
    m.Charged i c ∨ (i = m.born ∧ t.charge? = some c) := by
  constructor
  · rintro ⟨u, hmem, hu⟩
    rcases mem_spawn.mp hmem with h | h
    · exact .inl ⟨u, h, hu⟩
    · obtain ⟨rfl, rfl⟩ := Prod.mk.inj h
      exact .inr ⟨rfl, hu⟩
  · rintro (⟨u, hmem, hu⟩ | ⟨rfl, ht⟩)
    · exact ⟨u, mem_spawn.mpr (.inl hmem), hu⟩
    · exact ⟨t, mem_spawn.mpr (.inr rfl), ht⟩

theorem Numbered.become (h : m.Numbered) (j : Nat) (t : Task) : (m.become j t).Numbered := by
  have hkeys : (m.become j t).jobs.map Prod.fst = m.jobs.map Prod.fst := by
    simp only [Machine.become, List.map_map]
    refine List.map_congr_left fun p _ => ?_
    by_cases hp : p.1 = j
    · simp [hp]
    · simp [hp]
  refine ⟨hkeys ▸ h.distinct, ?_⟩
  intro p hp
  rcases mem_become.mp hp with ⟨hmem, -⟩ | ⟨rfl, u, hu⟩
  · exact h.below p hmem
  · exact h.below (j, u) hu

theorem Numbered.dismiss (h : m.Numbered) (j : Nat) : (m.dismiss j).Numbered where
  distinct := (List.filter_sublist.map _).nodup h.distinct
  below p hp := h.below p (mem_dismiss.mp hp).1

theorem Numbered.spawn (h : m.Numbered) (t : Task) : (m.spawn t).Numbered where
  distinct := by
    have hnew : m.born ∉ m.jobs.map Prod.fst := by
      intro hm
      obtain ⟨p, hp, heq⟩ := List.mem_map.mp hm
      have hlt := h.below p hp
      omega
    simp only [Machine.spawn, List.map_append, List.map_cons, List.map_nil]
    refine List.nodup_append.mpr ⟨h.distinct, List.nodup_singleton _, ?_⟩
    intro a ha b hb
    rw [List.mem_singleton.mp hb]
    rintro rfl
    exact hnew ha
  below p hp := by
    change p.1 < m.born + 1
    rcases mem_spawn.mp hp with hmem | rfl
    · have hlt := h.below p hmem
      omega
    · exact Nat.lt_succ_self _

theorem mem_of_task? (h : m.task? j = some t) : (j, t) ∈ m.jobs := Session.mem_of_lookup h

/-- A job is in charge of what its task says. -/
theorem Numbered.charged_iff (h : m.Numbered) (ht : m.task? j = some t) :
    m.Charged j c ↔ t.charge? = some c := by
  constructor
  · rintro ⟨u, hmem, hu⟩
    have heq : (j, u) = (j, t) :=
      List.inj_on_of_nodup_map h.distinct hmem (mem_of_task? ht) rfl
    obtain ⟨-, rfl⟩ := Prod.mk.inj heq
    exact hu
  · intro hc
    exact ⟨t, mem_of_task? ht, hc⟩

/-! ## What leaves charges alone -/

/-- What is said if a response is put on the way: the response, or nothing if the editor has
gone. -/
def Heard (m : Machine) (r : Editor.Response) (said : List Editor.Response) : Prop :=
  said = [r] ∨ (said = [] ∧ m.outlet ≠ .open)

/-- Job `j` works on: it may give up what it is in charge of, but takes nothing on, and the charges
of the other jobs stay. `said` are the responses put on the way meanwhile, latest first. -/
structure Works (j : Nat) (said : List Editor.Response) (m m' : Machine) : Prop where
  others : ∀ i c, i ≠ j → (m'.Charged i c ↔ m.Charged i c)
  own : ∀ c, m'.Charged j c → m.Charged j c
  responses : m'.responses = said ++ m.responses
  slots : m.pending.slots.length ≤ m'.pending.slots.length
  born : m.born ≤ m'.born
  numbered : m.Numbered → m'.Numbered
  outlet : m'.outlet = .open → m.outlet = .open
  now : m'.now = m.now

namespace Works

theorem refl (j : Nat) (m : Machine) : Works j [] m m :=
  ⟨fun _ _ _ => .rfl, fun _ h => h, rfl, Nat.le_refl _, Nat.le_refl _, id, id, rfl⟩

theorem emit (h : Works j said m m') {o : Output} (ho : o.response? = none) :
    Works j said m (m'.emit o) where
  others := h.others
  own := h.own
  responses := by
    rw [← h.responses, Machine.responses, Machine.emit, List.filterMap_cons_none ho]
    rfl
  slots := h.slots
  born := h.born
  numbered hn := ⟨(h.numbered hn).distinct, (h.numbered hn).below⟩
  outlet := h.outlet
  now := h.now

theorem spawn (h : Works j said m m') {t : Task} (ht : t.charge? = none) :
    Works j said m (m'.spawn t) where
  others i c hi := by
    rw [charged_spawn, h.others i c hi]
    simp [ht]
  own c hc := by
    rcases charged_spawn.mp hc with hc | ⟨-, hc⟩
    · exact h.own c hc
    · rw [ht] at hc
      cases hc
  responses := h.responses
  slots := h.slots
  born := Nat.le_succ_of_le h.born
  numbered hn := (h.numbered hn).spawn t
  outlet := h.outlet
  now := h.now

theorem become (h : Works j said m m') {t : Task} (ht : t.charge? = none) :
    Works j said m (m'.become j t) where
  others i c hi := by
    rw [charged_become, h.others i c hi]
    simp [hi]
  own c hc := by
    rcases charged_become.mp hc with ⟨-, hj⟩ | ⟨-, hc, -⟩
    · exact absurd rfl hj
    · rw [ht] at hc
      cases hc
  responses := h.responses
  slots := h.slots
  born := h.born
  numbered hn := (h.numbered hn).become j t
  outlet := h.outlet
  now := h.now

theorem dismiss (h : Works j said m m') : Works j said m (m'.dismiss j) where
  others i c hi := by
    rw [charged_dismiss, h.others i c hi]
    simp [hi]
  own c hc := absurd rfl (charged_dismiss.mp hc).2
  responses := h.responses
  slots := h.slots
  born := h.born
  numbered hn := (h.numbered hn).dismiss j
  outlet := h.outlet
  now := h.now

theorem finish (h : Works j said m m') (caller : Nat) (r : Result) (held : Option Holding) :
    Works j said m (m'.finish j caller r held) := (h.emit rfl).dismiss

/-- The session is no concern of the charges, and neither is what the bridge has been told and has
not yet made use of. -/
theorem of_concern {m'' : Machine} (h : Works j said m m') (hc : m''.concern = m'.concern) :
    Works j said m m'' := by
  obtain ⟨hjobs, hborn, hlog, hpending, hout, hnow⟩ := Concern.mk.inj hc
  refine ⟨fun i c hi => ?_, fun c hc => ?_, ?_, hpending ▸ h.slots, hborn ▸ h.born, fun hn => ?_,
    fun ho => h.outlet (hout ▸ ho), hnow.trans h.now⟩
  · rw [← h.others i c hi, Charged, hjobs]
    rfl
  · rw [Charged, hjobs] at hc
    exact h.own c hc
  · rw [← h.responses, Machine.responses, hlog]
    rfl
  · refine ⟨hjobs ▸ (h.numbered hn).distinct, ?_⟩
    rw [hjobs, hborn]
    exact (h.numbered hn).below

theorem outlet_of_ne (h : Works j said m m') {o : Outlet} (ho : o ≠ .open) :
    Works j said m { m' with outlet := o } :=
  ⟨h.others, h.own, h.responses, h.slots, h.born, fun hn => ⟨(h.numbered hn).distinct,
    (h.numbered hn).below⟩, fun hc => absurd hc ho, h.now⟩

theorem pending (h : Works j said m m') {p : Pending}
    (hp : m'.pending.slots.length ≤ p.slots.length) : Works j said m { m' with pending := p } :=
  ⟨h.others, h.own, h.responses, Nat.le_trans h.slots hp, h.born, fun hn =>
    ⟨(h.numbered hn).distinct, (h.numbered hn).below⟩, h.outlet, h.now⟩

theorem session (h : Works j said m m') (s : ShipBridge.Session) :
    Works j said m { m' with session := s } := h.of_concern rfl

theorem withSession (h : Works j said m m') (s : ShipBridge.Session) :
    Works j said m (m'.withSession s) := by
  unfold Machine.withSession
  dsimp only
  split_ifs
  · exact (h.session s).spawn rfl
  · exact h.session s

theorem timer (h : Works j said m m') (d : Duration) : Works j said m (m'.timer d).2 :=
  h.of_concern rfl

/-- A message that is lost sets off no more than a job that notices the loss. -/
theorem send_lost (h : Works j said m m') (message : Editor.Message) (ho : m'.outlet ≠ .open) :
    Works j said m (m'.send message).2 := by
  unfold Machine.send
  split
  · next hopen => exact absurd hopen ho
  · exact (h.outlet_of_ne (o := .failing) (by decide)).spawn rfl
  · exact h
  · exact h

theorem send_notice (h : Works j said m m') {message : Editor.Message}
    (hn : (Output.message message).response? = none) : Works j said m (m'.send message).2 := by
  by_cases ho : m'.outlet = .open
  · rw [Machine.send, ho]
    exact h.emit hn
  · exact h.send_lost message ho

theorem send (h : Works j [] m m') (r : Editor.Response) :
    ∃ said, Works j said m (m'.send (.response r)).2 ∧ Heard (m'.send (.response r)).2 r said := by
  by_cases ho : m'.outlet = .open
  · refine ⟨[r], ?_, .inl rfl⟩
    rw [Machine.send, ho]
    refine ⟨h.others, h.own, ?_, h.slots, h.born, ?_, h.outlet, h.now⟩
    · rw [← List.nil_append m.responses, ← h.responses]
      rfl
    · intro hn
      exact ⟨(h.numbered hn).distinct, (h.numbered hn).below⟩
  · refine ⟨[], h.send_lost _ ho, .inr ⟨rfl, ?_⟩⟩
    unfold Machine.send
    split
    · next hopen => exact absurd hopen ho
    · intro hc
      cases hc
    · exact ho
    · exact ho

theorem erase (h : Works j said m m') (key : String) :
    Works j said m { m' with pending := m'.pending.erase key } := h.pending (Nat.le_refl _)

theorem route (h : Works j said m m') (update : Json) : Works j said m (m'.route update) := by
  unfold Machine.route
  split
  · next key o _ => exact h.pending (Nat.le_of_eq (m'.pending.length_resolve key o).symm)
  · exact h.send_notice rfl
  · exact h

theorem failPending (h : Works j said m m') : Works j said m m'.failPending :=
  h.pending (Nat.le_of_eq (m'.pending.length_failAll _).symm)

theorem call? (h : Works j said m m') {i : Nat} {r : Session.Request} {receipt : Session.Receipt}
    {t : Machine} (hc : m'.call? i r = some (receipt, t)) : Works j said m t := by
  obtain ⟨⟨receipt', s⟩, hs, heq⟩ := Option.map_eq_some_iff.mp hc
  obtain ⟨-, rfl⟩ := Prod.mk.inj heq
  exact h.withSession s

theorem forward? (h : Works j said m m') (i : Nat) (method : String) (params : Option Json) :
    Works j said m (m'.forward? e i method params).2 := by
  have henter : m'.pending.slots.length ≤
      (m'.pending.enter (e.correlate (m'.issued + 1))).2.slots.length := by
    simp [Pending.enter]
  have hissued : Works j said m { m' with
      pending := (m'.pending.enter (e.correlate (m'.issued + 1))).2
      issued := m'.issued + 1 } := (h.pending henter).of_concern rfl
  simp only [Machine.forward?]
  split
  · next hc => exact hissued.call? hc
  · exact hissued.erase _

/-! ## Jobs that are in charge of nothing -/

theorem afterNotification (h : Works j said m m') (method : String) (envelope : Json) :
    Works j said m (m'.afterNotification e method envelope) := by
  unfold Machine.afterNotification
  split_ifs
  · exact (h.timer e.settings.notificationDelay).spawn rfl
  · exact h

theorem resume (h : Works j said m m') (source : Source) (method : String) :
    Works j said m (m'.resume j source method) := by
  cases source with
  | caller n => exact h.finish n _ _
  | editor conversation =>
    simp only [Machine.resume]
    split_ifs
    · exact h.finish conversation _ _
    · exact h.become rfl

theorem sent (h : Works j said m m') {p : Purpose} (hp : (Task.sending p).charge? = none)
    (a : Answer) : Works j said m (m'.sent e j p a) := by
  cases p with
  | poke caller id ticket wait =>
    cases a with
    | ok =>
      simp only [Machine.sent]
      split_ifs
      · exact h.become rfl
      · exact h.finish caller _ _
    | error f => exact h.finish caller _ _
  | subscribe caller id ticket => cases a <;> exact h.finish caller _ _
  | unsubscribe caller => cases a <;> exact h.finish caller _ _
  | acknowledge => cases a <;> exact h.dismiss
  | serve caller ticket =>
    cases a <;> exact (h.spawn (t := .follow _ {}) rfl).finish caller _ _
  | resubscribe ticket backoff =>
    cases a with
    | ok => exact h.become rfl
    | error f =>
      cases f with
      | closed => exact h.failPending.dismiss
      | _ => exact h.become rfl
  | notification source method envelope id ticket =>
    cases a with
    | ok =>
      have hwatch : Works j said m (m'.spawnWatch e id ticket) :=
        (h.timer e.settings.requestTimeout).spawn rfl
      exact (hwatch.afterNotification method envelope).resume source method
    | error f => exact (h.afterNotification method envelope).resume source method
  | copy id ticket =>
    cases a with
    | ok => exact (h.timer e.settings.requestTimeout).become rfl
    | error f => exact h.dismiss
  | request origin f =>
    cases origin with
    | editor conversation id => cases hp
    | caller n =>
      cases a with
      | ok => exact (h.timer e.settings.requestTimeout).become rfl
      | error fault => exact (h.erase f.correlation).finish n _ _
  | forward caller f =>
    cases a with
    | ok => exact h.finish caller _ _
    | error fault => exact (h.erase f.correlation).finish caller _ _

theorem stepSending (h : Works j said m m') {p : Purpose}
    (hp : (Task.sending p).charge? = none) : Works j said m (m'.stepSending e j p) := by
  unfold Machine.stepSending
  split
  · refine Works.emit ?_ rfl
    exact h.of_concern rfl
  · exact (h.withSession _).sent hp _
  · split
    · exact h
    · split
      · exact h
      · next s _ =>
        have hread : Works j said m { m' with delivered := none } :=
          h.of_concern rfl
        exact (hread.withSession s).sent hp _

theorem notify (h : Works j said m m') (source : Source) (method : String)
    (params : Option Json) : Works j said m (m'.notify e j source method params) := by
  simp only [Machine.notify]
  split
  · next hc => exact (h.call? hc).become rfl
  · exact (h.afterNotification _ _).resume source method

theorem stepStart (h : Works j said m m') (caller : Nat) (c : Call) :
    Works j said m (m'.stepStart e j caller c) := by
  cases c with
  | outcome ticket => exact h.become rfl
  | converse => exact h.become rfl
  | await f => exact (h.timer e.settings.requestTimeout).become rfl
  | notify method params => exact h.notify _ method params
  | close =>
    simp only [Machine.stepStart]
    split_ifs
    · refine Works.become (Works.emit ?_ rfl) rfl
      exact h.of_concern rfl
    · exact (h.session _).finish caller _ _
  | request method params =>
    have hforward := h.forward? (e := e) j method params
    simp only [Machine.stepStart, Machine.request]
    split_ifs
    · exact h.finish caller _ _
    · split
      · next hf => exact Works.become (by simpa [hf] using hforward) rfl
      · next hf => exact Works.finish (by simpa [hf] using hforward) caller _ _
  | forward method params =>
    have hforward := h.forward? (e := e) j method params
    simp only [Machine.stepStart]
    split
    · next hf => exact Works.become (by simpa [hf] using hforward) rfl
    · next hf => exact Works.finish (by simpa [hf] using hforward) caller _ _
  | serve =>
    simp only [Machine.stepStart]
    split
    · next hc => exact (h.call? hc).become rfl
    · exact (h.spawn (t := .follow none {}) rfl).finish caller _ _
  | poke | subscribe | unsubscribe =>
    simp only [Machine.stepStart]
    split
    · next hc => exact (h.call? hc).become rfl
    · exact h.finish caller _ _

theorem stepDetached (h : Works j said m m') (backoff : Retry.Backoff) :
    Works j said m (m'.stepDetached e j backoff) := by
  unfold Machine.stepDetached
  split_ifs
  · exact h.failPending.dismiss
  · split
    · exact h.failPending.dismiss
    · split
      · refine Works.dismiss ?_
        exact h.of_concern rfl
      · next d _ => exact (h.timer d).become rfl

theorem stepFollow (h : Works j said m m') (ticket seen : Nat) (backoff : Retry.Backoff) :
    Works j said m (m'.stepFollow j ticket seen backoff) := by
  unfold Machine.stepFollow
  dsimp only
  split
  · exact (h.route _).become rfl
  · exact h.become rfl
  · exact h.become rfl
  · exact h.become rfl

theorem stepPause (h : Works j said m m') (backoff : Retry.Backoff) :
    Works j said m (m'.stepPause e j backoff) := by
  unfold Machine.stepPause
  split
  · next hc => exact (h.call? hc).become rfl
  · exact h.failPending.dismiss

theorem pauseStream (h : Works j said m m') (attempt : Option Nat) :
    Works j said m (m'.pauseStream e j attempt) := by
  unfold Machine.pauseStream
  split
  · exact h.dismiss
  · split
    · refine Works.dismiss ?_
      exact h.of_concern rfl
    · next d _ => exact (h.timer d).become rfl

theorem failStream (h : Works j said m m') : Works j said m (m'.failStream e j) := by
  unfold Machine.failStream
  refine Works.pauseStream ?_ _
  exact h.of_concern rfl

theorem awakenStream (h : Works j said m m') : Works j said m (m'.awakenStream j) := by
  unfold Machine.awakenStream
  split
  · refine Works.become (Works.emit ?_ rfl) rfl
    exact h.of_concern rfl
  · exact (h.session _).dismiss

theorem stepStream (h : Works j said m m') : Works j said m (m'.stepStream e j) := by
  unfold Machine.stepStream
  split
  · refine Works.dismiss ?_
    exact h.of_concern rfl
  · split
    · exact h.awakenStream
    · exact h.awakenStream
    · split
      · exact h
      · exact h.failStream
      · dsimp only
        split_ifs
        · refine Works.spawn ?_ rfl
          exact h.of_concern rfl
        · exact h.of_concern rfl
    · split
      · exact h.of_concern rfl
      · exact h.failStream
      · split_ifs
        · exact h.failStream
        · exact h
    · exact h.dismiss
    · exact h.dismiss

theorem tell (h : Works j said m m') (n : Nat) (o : Outcome) :
    Works j said m (m'.tell j (.caller n) o) := h.finish n _ _

theorem cleared (h : Works j said m m') (f : Forwarded) : Works j said m { m' with
    pending := m'.pending.erase f.correlation
    session := (m'.session.forget f.poke).2 } := (h.erase f.correlation).of_concern rfl

theorem conclude (h : Works j said m m') (n : Nat) (f : Forwarded) (o : Outcome) :
    Works j said m (m'.conclude j (.caller n) f o) := by
  cases o with
  | ok v => exact h.tell n (.ok v)
  | error fault => exact (h.cleared f).tell n (.error fault)

theorem stepTask (t : Task) (ht : t.charge? = none) (hc : ∀ n, t ≠ .converse n) :
    Works j [] m (m.stepTask e j t) := by
  have h : Works j [] m m := .refl j m
  cases t with
  | start caller c => exact h.stepStart caller c
  | sending p => exact h.stepSending ht
  | outcome caller ticket =>
    simp only [Machine.stepTask]
    split
    · exact h.finish caller _ _
    · exact h.finish caller _ _
    · exact h
  | closing caller =>
    simp only [Machine.stepTask]
    split
    · exact h.finish caller _ _
    · exact h.finish caller _ _
    · exact h
  | acknowledge => exact (h.session _).become rfl
  | watch id ticket t =>
    simp only [Machine.stepTask]
    split
    · exact h.dismiss
    · split_ifs
      · exact (h.session _).dismiss
      · exact h
  | redeliver envelope t =>
    simp only [Machine.stepTask]
    split
    · next hc => exact (h.call? hc).become rfl
    · exact h.dismiss
  | await origin f t =>
    cases origin with
    | editor conversation id => cases ht
    | caller n =>
      rcases m.stepTask_await e j (.caller n) f t with hstep | ⟨o, hstep⟩ <;> rw [hstep]
      · exact h
      · exact h.conclude n f o
  | follow current backoff =>
    cases current with
    | none => exact h.stepDetached backoff
    | some p => exact h.stepFollow p.1 p.2 backoff
  | pause backoff t => exact h.stepPause backoff
  | stream t => exact h.stepStream
  | converse conversation => exact absurd rfl (hc conversation)
  | hangUp => exact (h.outlet_of_ne (o := .gone) (by decide)).dismiss

end Works

end Machine

end ShipBridge.Relay
