import ShipBridge.Proofs.Relay.Calls
import ShipBridge.Proofs.Relay.Deliveries
import ShipBridge.Proofs.Relay.EntriesReleased

/-!
# What becomes of a notification

A notification is poked at the ship as soon as it is handled. When that has ended, with whatever
outcome, its sender goes on; if the method is the one that is redelivered, a new job waits for the
delay and then pokes the same envelope again, and that is all. A poke that has been sent keeps its
entry in the table of pokes until the request timeout at the latest, and whatever the ship answers
to it, the editor hears nothing of it and no request that waits is touched.
-/

namespace ShipBridge.Relay

open Session (Answer Receipt)

def Purpose.note? : Purpose → Option (Nat × Nat)
  | .notification _ _ _ id ticket | .copy id ticket => some (id, ticket)
  | _ => none

theorem Task.isListed_of_care {t : Task} {c : Care} (hc : t.care? = some c) :
    t.isListed = true := by
  cases t with
  | start caller call => cases call <;> first | rfl | cases hc
  | _ => first | rfl | cases hc

theorem Purpose.ofRequest_of_care {p : Purpose} {c : Care} (hc : p.care? = some c)
    {f : Forwarded} (hf : c.request? = some f) : c = .ofRequest f := by
  cases p with
  | request origin g | forward caller g =>
    obtain rfl := Option.some.inj hc
    obtain rfl := Option.some.inj hf
    rfl
  | poke | notification | copy =>
    obtain rfl := Option.some.inj hc
    cases hf
  | _ => cases hc

theorem Task.ofRequest_of_care {t : Task} {c : Care} (hc : t.care? = some c) {f : Forwarded}
    (hf : c.request? = some f) : c = .ofRequest f := by
  cases t with
  | sending p => exact Purpose.ofRequest_of_care hc hf
  | await origin g d =>
    obtain rfl := Option.some.inj hc
    obtain rfl := Option.some.inj hf
    rfl
  | outcome | watch =>
    obtain rfl := Option.some.inj hc
    cases hf
  | start caller call =>
    cases call with
    | await g =>
      obtain rfl := Option.some.inj hc
      obtain rfl := Option.some.inj hf
      rfl
    | outcome ticket =>
      obtain rfl := Option.some.inj hc
      cases hf
    | _ => cases hc
  | _ => cases hc

theorem poke?_of_request {b : Books} {c : Care} (hc : b.Cares c) {f : Forwarded}
    (hf : c.request? = some f) : c.poke? = some f.poke := by
  have hof : c = .ofRequest f := by
    rcases hc with ⟨i, t, -, ht⟩ | ⟨r, -, hr⟩
    · exact Task.ofRequest_of_care ht hf
    · cases r with
      | request g =>
        obtain rfl := Option.some.inj hr
        obtain rfl := Option.some.inj hf
        rfl
      | poke ticket =>
        obtain rfl := Option.some.inj hr
        cases hf
      | subscription id ticket => cases hr
  rw [hof]
  rfl

namespace Machine

section Definitions

variable (e : Surroundings)

/-- `P` holds at every moment until a happening at which `Q` does, or until the end. -/
def Until (P : Machine → Prop) (Q : Machine → Happening → List Happening → Prop) :
    Machine → List Happening → Prop
  | m, [] => P m
  | m, h :: hs => P m ∧ (Q m h hs ∨ Until P Q (m.after e h) hs)

/-- Job `k` waits until `d` is due, and its first step from then on pokes `body`. -/
def Redelivers (k : Nat) (body : Json) (d : Timer) : Machine → List Happening → Prop :=
  Until e
    (fun m => m.task? k = some (.redeliver body d) ∧
      (d.due ≤ m.now → m.attempted? e (.step k) = some body))
    fun m h _ => h = .step k ∧ d.due ≤ m.now

/-- With this step of job `j` the first attempt to poke a notification has finished. Its sender goes
on, and there is a new job that sends the second copy, if there has to be one. -/
structure Finishes (n : Notification) (j : Nat) (m : Machine) (hs : List Happening) : Prop where
  goesOn : (m.step e j).task? j = Source.next n.method n.source
  copy : n.method = e.settings.redelivered → ∃ k d, m.born ≤ k ∧ k < (m.step e j).born ∧
    d.due = m.now + e.settings.notificationDelay.millisCeil ∧
    Redelivers e k n.envelope d (m.step e j) hs

/-- What becomes of a notification that job `j` begins to handle: the poke is refused because the
session is closed, or it is being sent until the attempt finishes. -/
structure Passage (n : Notification) (j : Nat) (m : Machine) (hs : List Happening) : Prop where
  attempt : m.attempted? e (.step j) = some n.envelope
  way : (m.session.state.isClosed = true ∧ Finishes e n j m hs) ∨
    ∃ id ticket, Until e
      (fun u => u.task? j = some (.sending
        (.notification n.source n.method n.envelope id ticket)))
      (fun u h rest => h = .step j ∧ Finishes e n j u rest) (m.step e j) hs

/-- The entry of a poke has gone, or a job watches it: by the moment `due` that job is ready, and
its step takes the entry out. -/
def Watched (id ticket due : Nat) (m : Machine) : Prop :=
  m.session.state.pokes.ticket? id = none ∨ ∃ w d, m.task? w = some (.watch id ticket d) ∧
    (due ≤ m.now → m.ready e w = true ∧ (m.step e w).session.state.pokes.ticket? id = none)

def noted (tr : List (Machine × Happening)) : List Nat :=
  tr.filterMap fun q => (q.1.attempted? e q.2).bind fun _ =>
    if q.1.session.state.isClosed then none else some q.1.session.state.pokes.slots.length

end Definitions

variable {e : Surroundings} {m m' : Machine} {j : Nat} {t : Task} {n : Notification} {body : Json}
  {id ticket : Nat} {tickets : List Nat}

/-! ## The way of one notification -/

theorem until_of_after {P : Machine → Prop} {Q : Machine → Happening → List Happening → Prop}
    (hafter : ∀ m h hs, m.Orderly → P m → P (m.after e h) ∨ Q m h hs) (hm : m.Orderly) (hP : P m)
    (hs : List Happening) : Until e P Q m hs := by
  induction hs generalizing m with
  | nil => exact hP
  | cons h hs ih =>
    refine ⟨hP, ?_⟩
    rcases hafter m h hs hm hP with hP' | hQ
    · exact .inr (ih (hm.after h) hP')
    · exact .inl hQ

theorem attempted?_step (ht : m.task? j = some t) (hready : m.readyTask e j t = true) :
    m.attempted? e (.step j) = m.attempts? e t := by
  simp only [attempted?, ht, Option.bind_some, hready, if_true]

theorem redelivers {k : Nat} {d : Timer} (hm : m.Orderly)
    (ht : m.task? k = some (.redeliver body d)) (hs : List Happening) :
    Redelivers e k body d m hs := by
  have hwaits {u : Machine} (hu : u.task? k = some (.redeliver body d)) :
      u.task? k = some (.redeliver body d) ∧
        (d.due ≤ u.now → u.attempted? e (.step k) = some body) := by
    refine ⟨hu, fun hdue => ?_⟩
    have hready : u.readyTask e k (.redeliver body d) = true := by simp [readyTask, isDue, hdue]
    rw [attempted?_step hu hready, attempts?]
  refine until_of_after (fun u h hs hu hw => ?_) hm (hwaits ht) hs
  by_cases hk : h = .step k
  · subst hk
    by_cases hdue : d.due ≤ u.now
    · exact .inr ⟨rfl, hdue⟩
    · have hready : ¬u.readyTask e k (.redeliver body d) = true := by simp [readyTask, isDue, hdue]
      rw [after, step_of_not_ready hw.1 hready]
      exact .inl hw
  · exact .inl (hwaits (task?_after hu.numbered hk hw.1))

theorem finishes_of_sequel (before : List Task) (hm : m.Orderly) (ht : m.task? j = some t)
    {d : Timer} (hd : d.due = m.now + e.settings.notificationDelay.millisCeil)
    (hseq : Sequel j (Source.next n.method n.source)
      (before ++ secondCopy e n.method n.envelope d) m (m.step e j)) (hs : List Happening) :
    Finishes e n j m hs := by
  have hm' : (m.step e j).Orderly := hm.after (.step j)
  refine ⟨hseq.task?_self hm.numbered hm'.numbered ht, fun hmethod => ?_⟩
  have hcopy : secondCopy e n.method n.envelope d = [.redeliver n.envelope d] := if_pos hmethod
  have hborn := hseq.born
  rw [hcopy] at hseq hborn
  have hnew : (before ++ [Task.redeliver n.envelope d])[before.length]? =
      some (.redeliver n.envelope d) := List.getElem?_concat_length
  rw [List.length_append, List.length_singleton] at hborn
  exact ⟨m.born + before.length, d, by omega, by omega, hd,
    redelivers hm' (hseq.task?_born hm'.numbered hnew) hs⟩

theorem passage (hm : m.Orderly) (hh : m.handled? e (.step j) = some n) (hs : List Happening) :
    Passage e n j m hs := by
  obtain ⟨t, ht, hhandles⟩ := Option.bind_eq_some_iff.mp hh
  split_ifs at hhandles with hready
  have hm' : (m.step e j).Orderly := hm.after (.step j)
  refine ⟨(attempted?_step ht hready).trans (attempts?_of_handles hhandles), ?_⟩
  rcases (handles_begins hm.numbered ht hready hhandles).called with
    ⟨id, ticket, -, hseq⟩ | ⟨hnone, -, d, hd, hseq⟩
  · refine .inr ⟨id, ticket, ?_⟩
    refine until_of_after (fun u h rest hu hsending => ?_) hm'
      (hseq.task?_self hm.numbered hm'.numbered ht) hs
    by_cases hj : h = .step j
    · subst hj
      by_cases hready' : u.readyTask e j (.sending
          (.notification n.source n.method n.envelope id ticket)) = true
      · rcases notification_sequel hu.numbered hsending hready' with
          ⟨-, hsame⟩ | ⟨a, new, w, d, -, -, -, hd, hend⟩
        · exact .inl (hsame.task?_self hu.numbered (hu.after (.step j)).numbered hsending)
        · exact .inr ⟨rfl, finishes_of_sequel _ hu hsending hd hend rest⟩
      · rw [after, step_of_not_ready hsending hready']
        exact .inl hsending
    · exact .inl (task?_after hu.numbered hj hsending)
  · exact .inl ⟨isClosed_of_call? hnone, finishes_of_sequel [] hm ht hd hseq hs⟩

/-! ## Attempts are calls for pokes -/

theorem attempted_calls (hn : m.Numbered) (ha : m.attempted? e (.step j) = some body) :
    ((∃ id ticket, m.session.call? j (pokeRequest e notificationMark body) =
        some (.poke id ticket, (m.step e j).session)) ∨
      (m.session.call? j (pokeRequest e notificationMark body) = none ∧
        (m.step e j).session = m.session)) ∧ Discreet m (m.step e j) := by
  obtain ⟨t, ht, hattempts⟩ := Option.bind_eq_some_iff.mp ha
  split_ifs at hattempts with hready
  have hhandles (hmap : (m.handles? e t).map Notification.envelope = some body) :
      ∃ n, m.handles? e t = some n ∧ n.envelope = body := Option.map_eq_some_iff.mp hmap
  by_cases hr : ∃ d, t = .redeliver body d
  · obtain ⟨d, rfl⟩ := hr
    refine ⟨?_, ?_⟩
    · rcases redeliver_sequel hn ht hready with ⟨id, ticket, hcall, -⟩ | ⟨hnone, hsession, -⟩
      · exact .inl ⟨id, ticket, hcall⟩
      · exact .inr ⟨hnone, hsession⟩
    · rw [step_of_ready ht hready]
      simp only [stepTask]
      split
      · next h =>
        obtain ⟨-, -, hpending, hlog⟩ := call?_grows h
        exact (Discreet.refl m).of_log hpending hlog
      · exact (Discreet.refl m).of_log rfl rfl
  · obtain ⟨n, hh, rfl⟩ : ∃ n, m.handles? e t = some n ∧ n.envelope = body := by
      cases t with
      | redeliver body' d => exact absurd ⟨d, by rw [Option.some.inj hattempts]⟩ hr
      | _ => exact hhandles hattempts
    obtain ⟨hcalled, hdiscreet⟩ := handles_begins hn ht hready hh
    refine ⟨hcalled.imp ?_ ?_, hdiscreet⟩
    · rintro ⟨id, ticket, hcall, -⟩
      exact ⟨id, ticket, hcall⟩
    · rintro ⟨hnone, hsession, -⟩
      exact ⟨hnone, hsession⟩

theorem attempted_act (hn : m.Numbered) (ha : m.attempted? e (.step j) = some body) (k : Nat) :
    (m.step e j).session = m.session.act k (.call j (pokeRequest e notificationMark body)) := by
  rcases (attempted_calls hn ha).1 with ⟨id, ticket, hcall⟩ | ⟨hnone, hsession⟩
  · simp [Session.act, hcall]
  · simp [Session.act, hnone, hsession]

/-- Only attempts, and callers that poke for themselves, ask for a poke with that mark. -/
theorem attempts?_of_asks {ship app : String}
    (h : m.asks? e t = some (.poke ship app notificationMark body)) :
    m.attempts? e t = some body ∨
      ∃ caller wait, t = .start caller (.poke ship app notificationMark body wait) := by
  have hmark : requestMark ≠ notificationMark := by decide
  have hturn (turn : Editor.Turn)
      (hp : pokeFor? e (m.nextKey e) turn = some (.poke ship app notificationMark body)) :
      ∃ method params, turn = .notification method params ∧
        envelope none method params = body := by
    cases turn with
    | notification method params =>
      exact ⟨method, params, rfl, (Session.Request.poke.inj (Option.some.inj hp)).2.2.2⟩
    | request id method params =>
      simp only [pokeFor?] at hp
      split_ifs at hp
      exact absurd (Session.Request.poke.inj (Option.some.inj hp)).2.2.1 hmark
    | _ => cases hp
  cases t with
  | start caller c =>
    cases c with
    | poke ship' app' mark json wait =>
      obtain ⟨rfl, rfl, rfl, rfl⟩ := Session.Request.poke.inj (Option.some.inj h)
      exact .inr ⟨caller, wait, rfl⟩
    | notify method params =>
      obtain ⟨method', params', heq, hbody⟩ := hturn (.notification method params) h
      obtain ⟨rfl, rfl⟩ := Editor.Turn.notification.inj heq
      exact .inl (congrArg some hbody)
    | request method params =>
      obtain ⟨method', params', heq, -⟩ := hturn (.request .null method params) h
      cases heq
    | forward method params =>
      exact absurd (Session.Request.poke.inj (Option.some.inj h)).2.2.1 hmark
    | _ => cases h
  | converse conversation =>
    simp only [asks?] at h
    split at h
    · next hscan =>
      obtain ⟨method, params, heq, hbody⟩ := hturn _ h
      refine .inl ?_
      simp only [attempts?, handles?, hscan, heq, Option.map_some]
      exact congrArg some hbody
    · cases h
  | redeliver body' d =>
    exact .inl (congrArg some (Session.Request.poke.inj (Option.some.inj h)).2.2.2)
  | _ => cases h

theorem attempted_of_errand {h : Happening} {x : Session.Errand} {ship app : String}
    (hx : x ∈ (m.after e h).session.line.errands) (hnew : x ∉ m.session.line.errands)
    (hfreight : x.freight = .command (.poke id ship app notificationMark body)) :
    m.attempted? e h = some body ∨ ∃ j caller wait, h = .step j ∧
      m.task? j = some (.start caller (.poke ship app notificationMark body wait)) := by
  rcases errand_of_after hx hnew with hack | ⟨j, t, r, rfl, ht, hready, hasks, rfl⟩
  · rw [hack] at hfreight
    cases hfreight
  · obtain rfl : r = .poke ship app notificationMark body := by
      cases r with
      | poke ship' app' mark' json' =>
        obtain ⟨-, rfl, rfl, rfl, rfl⟩ :=
          Wire.Command.poke.inj (Session.Freight.command.inj hfreight)
        rfl
      | _ => cases hfreight
    rcases attempts?_of_asks hasks with hattempts | ⟨caller, wait, rfl⟩
    · exact .inl ((attempted?_step ht hready).trans hattempts)
    · exact .inr ⟨j, caller, wait, rfl, ht⟩

/-! ## The entries of the pokes -/

theorem after_stepsTo (m : Machine) (h : Happening) :
    m.session.StepsTo e.reconnect.maxAttempts (m.after e h).session := (m.after_takes e h).stepsTo

theorem Tied.after {h : Happening} (ht : m.session.Tied id ticket) :
    (m.after e h).session.Tied id ticket := by
  rcases m.after_stepsTo (e := e) h with hs | ⟨a, hs⟩
  · rwa [hs]
  · rw [hs]
    exact ht.act a

theorem Tidy.after {h : Happening} (ht : m.session.Tidy) : (m.after e h).session.Tidy := by
  rcases m.after_stepsTo (e := e) h with hs | ⟨a, hs⟩
  · rwa [hs]
  · rw [hs]
    exact ht.act a

theorem gone_after {h : Happening} (ht : m.session.Tied id ticket)
    (hgone : m.session.state.pokes.ticket? id = none) :
    (m.after e h).session.state.pokes.ticket? id = none := by
  rcases m.after_stepsTo (e := e) h with hs | ⟨a, hs⟩
  · rwa [hs]
  · rw [hs]
    by_contra hsome
    obtain ⟨u, hu⟩ := Option.ne_none_iff_exists'.mp hsome
    rcases Session.ticket?_act hu with hold | ⟨hid, -⟩
    · rw [hgone] at hold
      cases hold
    · have hlt := ht.id_lt
      omega

theorem watch_takes_out {w : Nat} {d : Timer} (hn : m.Numbered) (htidy : m.session.Tidy)
    (htied : m.session.Tied id ticket) (ht : m.task? w = some (.watch id ticket d))
    (hready : m.readyTask e w (.watch id ticket d) = true) :
    (m.step e w).session.state.pokes.ticket? id = none := by
  rcases (watch_sequel hn ht hready).2 with ⟨hsession, houtcome⟩ | hsession
  · rw [hsession]
    cases hid : m.session.state.pokes.ticket? id with
    | none => rfl
    | some u =>
      obtain rfl := (htied.same id u hid).mp rfl
      exact absurd hid (no_entry_of_outcome htidy houtcome id)
  · rw [hsession]
    exact Session.ticket?_forget id

/-- What is known of a poke once its sending has ended: its entry has gone, or it is watched. -/
structure Sees (id ticket due : Nat) (m : Machine) : Prop where
  orderly : m.Orderly
  tidy : m.session.Tidy
  tied : m.session.Tied id ticket
  watch : m.session.state.pokes.ticket? id = none ∨
    ∃ w d, m.task? w = some (.watch id ticket d) ∧ d.due = due

theorem Sees.after {due : Nat} (hs : Sees id ticket due m) (h : Happening) :
    Sees id ticket due (m.after e h) := by
  refine ⟨hs.orderly.after h, Tidy.after hs.tidy, Tied.after hs.tied, ?_⟩
  rcases hs.watch with hgone | ⟨w, d, hw, hd⟩
  · exact .inl (gone_after hs.tied hgone)
  · by_cases hstep : h = .step w
    · subst hstep
      by_cases hready : m.readyTask e w (.watch id ticket d) = true
      · exact .inl (watch_takes_out hs.orderly.numbered hs.tidy hs.tied hw hready)
      · rw [Machine.after, step_of_not_ready hw hready]
        exact .inr ⟨w, d, hw, hd⟩
    · exact .inr ⟨w, d, task?_after hs.orderly.numbered hstep hw, hd⟩

theorem Sees.watched {due : Nat} (hs : Sees id ticket due m) : Watched e id ticket due m := by
  refine hs.watch.imp_right ?_
  rintro ⟨w, d, hw, rfl⟩
  refine ⟨w, d, hw, fun hdue => ?_⟩
  have hready : m.readyTask e w (.watch id ticket d) = true := by
    simp [readyTask, isDue, hdue]
  exact ⟨by rw [ready, hw, Option.any_some, hready],
    watch_takes_out hs.orderly.numbered hs.tidy hs.tied hw hready⟩

/-- The sending of a poke for a notification ends: the poke has been taken out of the table, or a
job begins to watch it. -/
theorem sees_of_sent (ho : m.Orderly) (hs : m.books.Sound e) {p : Purpose}
    (ht : m.task? j = some (.sending p)) (hp : p.note? = some (id, ticket))
    (hend : (m.step e j).task? j ≠ some (.sending p)) :
    Sees id ticket (m.now + e.settings.requestTimeout.millisCeil) (m.step e j) := by
  have ho' : (m.step e j).Orderly := ho.after (.step j)
  have hready : m.readyTask e j (.sending p) = true := by
    by_contra hready
    exact hend (by rw [step_of_not_ready ht hready, ht])
  have hcare : p.care? = some (.ofPoke id ticket) := by
    cases p <;> first | cases hp; rfl | cases hp
  have hdoes : m.books.does j (.sending p) := ⟨mem_of_task? ht, rfl⟩
  have htied : m.session.Tied id ticket :=
    (hs.genuine (.ofPoke id ticket) (.inl ⟨j, .sending p, hdoes, hcare⟩)).tied id rfl
  refine ⟨ho', Tidy.after (h := .step j) hs.tidy, Tied.after (h := .step j) htied, ?_⟩
  have hgone {f : Session.Fault} (hpass : m.session.Passes j (.error f) (m.step e j).session) :
      (m.step e j).session.state.pokes.ticket? id = none :=
    withdrawn_of_passes (hs.lined j) hdoes hcare rfl hpass
  cases p with
  | notification source method body id' ticket' =>
    obtain ⟨rfl, rfl⟩ := Prod.mk.inj (Option.some.inj hp)
    rcases notification_sequel ho.numbered ht hready with
      ⟨-, hsame⟩ | ⟨a, new, w, d, hpass, -, hw, -, hseq⟩
    · exact absurd (hsame.task?_self ho.numbered ho'.numbered ht) hend
    · cases a with
      | error f => exact .inl (hgone hpass)
      | ok =>
        refine .inr ⟨m.born + new.length, w, hseq.task?_born ho'.numbered ?_, hw⟩
        rw [watches, List.append_assoc, List.getElem?_append_right (Nat.le_refl _), Nat.sub_self]
        rfl
  | copy id' ticket' =>
    obtain ⟨rfl, rfl⟩ := Prod.mk.inj (Option.some.inj hp)
    rcases copy_sequel ho.numbered ht hready with ⟨-, hsame⟩ | ⟨a, new, w, hpass, -, hw, hseq⟩
    · exact absurd (hsame.task?_self ho.numbered ho'.numbered ht) hend
    · cases a with
      | error f => exact .inl (hgone hpass)
      | ok => exact .inr ⟨j, w, hseq.task?_self ho.numbered ho'.numbered ht, hw⟩
  | _ => cases hp

/-! ## Answers that nobody passes on -/

/-- What is known of the tickets of notifications: they have been given out, and nobody sees to them
on behalf of a request. -/
structure Private (tickets : List Nat) (m : Machine) : Prop where
  below : ∀ k ∈ tickets, k < m.session.state.pokes.slots.length
  plain : ∀ c f, m.books.Cares c → c.request? = some f → c.ticket ∉ tickets

theorem slots_le_after (m : Machine) (h : Happening) :
    m.session.state.pokes.slots.length ≤ (m.after e h).session.state.pokes.slots.length := by
  rcases m.after_stepsTo (e := e) h with hs | ⟨a, hs⟩
  · exact Nat.le_of_eq (by rw [hs])
  · rw [hs]
    rcases Session.act_pokes (n := e.reconnect.maxAttempts) (s := m.session) a with
      hsame | ⟨op, hop, -⟩
    · exact Nat.le_of_eq (by rw [hsame])
    · rw [hop]
      exact Session.Pokes.length_le_apply op

/-- An attempt gives out the next ticket, unless the session is closed. -/
theorem noted_step (hn : m.Numbered) (htidy : m.session.Tidy) {k : Nat}
    (hk : k ∈ noted e [(m, .step j)]) : k = m.session.state.pokes.slots.length ∧
      k < (m.step e j).session.state.pokes.slots.length ∧
      (m.step e j).pending = m.pending := by
  obtain ⟨q, hq, hnoted⟩ := List.mem_filterMap.mp hk
  obtain rfl := List.mem_singleton.mp hq
  obtain ⟨body, ha, hopen⟩ := Option.bind_eq_some_iff.mp hnoted
  split_ifs at hopen with hclosed
  obtain ⟨hcalls, hdiscreet⟩ := attempted_calls hn ha
  rcases hcalls with ⟨id, ticket, hcall⟩ | ⟨hnone, -⟩
  · have hticket : ticket = m.session.state.pokes.slots.length := by
      rcases Session.call?_pokes hcall with ⟨_, _, _, _, -, hreceipt, -⟩ | ⟨hne, -⟩
      · exact (Receipt.poke.inj hreceipt).2
      · exact absurd rfl (hne id ticket)
    obtain rfl := Option.some.inj hopen
    exact ⟨rfl, hticket ▸ (Session.tied_of_call htidy hcall).ticket_lt, hdiscreet.pending⟩
  · exact absurd (isClosed_of_call? hnone) hclosed

theorem noted_append (tr us : List (Machine × Happening)) :
    noted e (tr ++ us) = noted e tr ++ noted e us := List.filterMap_append

theorem Private.step (hp : Private tickets m) (hn : m.Numbered) (hs : m.books.Sound e) :
    Private (tickets ++ noted e [(m, .step j)]) (m.step e j) := by
  have hle := m.slots_le_after (e := e) (.step j)
  refine ⟨fun k hk => ?_, fun c f hc hf hmem => ?_⟩
  · rcases List.mem_append.mp hk with hk | hk
    · exact Nat.lt_of_lt_of_le (hp.below k hk) hle
    · exact (noted_step hn hs.tidy hk).2.1
  · rcases (step_deed (e := e) hn j).cares hn hc with ⟨d, hd, hpass⟩ | ⟨⟨r, id, s, hcall, -⟩, hreq⟩
    · have hdf : d.request? = some f := hpass.request ▸ hf
      have hlt := ((hs.genuine d hd).tied f.poke (poke?_of_request hd hdf)).ticket_lt
      change d.ticket < m.session.state.pokes.slots.length at hlt
      rcases List.mem_append.mp hmem with hold | hnew
      · exact hp.plain d f hd hdf (hpass.ticket ▸ hold)
      · have heq := (noted_step hn hs.tidy hnew).1
        rw [hpass.ticket] at heq
        omega
    · have hticket : c.ticket = m.session.state.pokes.slots.length := by
        rcases Session.call?_pokes hcall with ⟨_, _, _, _, -, hreceipt, -⟩ | ⟨hne, -⟩
        · exact (Receipt.poke.inj hreceipt).2
        · exact absurd rfl (hne id c.ticket)
      rcases List.mem_append.mp hmem with hold | hnew
      · have hlt := hp.below _ hold
        omega
      · obtain ⟨-, -, hgrown⟩ := hreq f hf
        rw [(noted_step hn hs.tidy hnew).2.2] at hgrown
        omega

theorem Private.after {h : Happening} (hp : Private tickets m) (hn : m.Numbered)
    (hs : m.books.Sound e) (hproper : Proper m h) :
    Private (tickets ++ noted e [(m, h)]) (m.after e h) := by
  by_cases hstep : ∃ j, h = .step j
  · obtain ⟨j, rfl⟩ := hstep
    exact hp.step hn hs
  have hnone : noted e [(m, h)] = [] := by
    have ha : m.attempted? e h = none := by
      cases h with
      | step j => exact absurd ⟨j, rfl⟩ hstep
      | _ => rfl
    simp [noted, ha]
  rw [hnone, List.append_nil]
  refine ⟨fun k hk => Nat.lt_of_lt_of_le (hp.below k hk) (m.slots_le_after h),
    fun c f hc hf => ?_⟩
  by_cases hcall : ∃ i call, h = .call i call
  · obtain ⟨i, call, rfl⟩ := hcall
    rcases hc with ⟨i', t, hd, ht⟩ | hheld
    · rw [(books_call m i call).1] at hd
      rcases hd with hd | ⟨heq, -⟩
      · exact hp.plain c f (.inl ⟨i', t, hd, ht⟩) hf
      · obtain ⟨-, rfl⟩ := Prod.mk.inj heq
        cases call with
        | await g =>
          obtain rfl := Option.some.inj ht
          exact hp.plain _ f (.inr ⟨_, hproper g rfl, rfl⟩) hf
        | outcome ticket =>
          obtain rfl := Option.some.inj ht
          cases hf
        | _ => cases ht
    · exact hp.plain c f (.inr hheld) hf
  · have hout := after_outside m (e := e) (fun j hj => hstep ⟨j, hj⟩)
      fun i call hc => hcall ⟨i, call, hc⟩
    refine hp.plain c f ?_ hf
    simpa only [Books.Cares, Books.Tends, hout.does, hout.held] using hc

theorem private_run {hs : List Happening} (hproper : ∀ q ∈ trail e {} hs, Proper q.1 q.2) :
    Private (noted e (trail e {} hs)) (run e {} hs) := by
  induction hs using List.reverseRecOn with
  | nil => exact ⟨nofun, fun _ _ _ _ => List.not_mem_nil⟩
  | append_singleton hs h ih =>
    rw [trail_append] at hproper ⊢
    have hbefore : ∀ q ∈ trail e {} hs, Proper q.1 q.2 := fun q hq =>
      hproper q (List.mem_append_left _ hq)
    have hk := kept_run hbefore
    rw [run_append, noted_append]
    exact (ih hbefore).after hk.orderly.numbered hk.sound
      (hproper _ (List.mem_append_right _ List.mem_cons_self))

theorem Private.discreet {k : Nat} (hp : Private tickets m) (hk : k ∈ tickets)
    (ht : m.task? j = some t) {c : Care} (hc : t.care? = some c) (hticket : c.ticket = k) :
    Discreet m (m.step e j) := by
  by_cases hready : m.readyTask e j t = true
  · rw [step_of_ready ht hready]
    refine discreet_of_care hc ?_ hready
    cases hr : c.request? with
    | none => rfl
    | some f =>
      have hcares : m.books.Cares c :=
        .inl ⟨j, t, ⟨mem_of_task? ht, Task.isListed_of_care hc⟩, hc⟩
      exact absurd (hticket ▸ hk) (hp.plain c f hcares hr)
  · rw [step_of_not_ready ht hready]
    exact .refl m

/-! ## Every notification -/

/-- Whatever has happened, and whatever happens later: -/
theorem notifications_delivered (e : Surroundings) (hs : List Happening)
    (hproper : ∀ q ∈ trail e {} hs, Proper q.1 q.2) :
    let m := run e {} hs
    -- what has been poked and what is still owed are the copies of what has been handled
    ((trail e {} hs).filterMap (fun q => q.1.attempted? e q.2) ++ m.owed e).Perm
      ((trail e {} hs).flatMap fun q =>
        (q.1.handled? e q.2).elim [] (Notification.copies e.settings.redelivered)) ∧
    -- each attempt is a call for a poke of the envelope with the mark of notifications
    (∀ j body, m.attempted? e (.step j) = some body → (m.step e j).session =
      m.session.act e.reconnect.maxAttempts (.call j (pokeRequest e notificationMark body))) ∧
    -- nothing else puts a poke with that mark in the queue, unless a caller asks for one
    (∀ h x, x ∈ (m.after e h).session.line.errands → x ∉ m.session.line.errands →
      ∀ id ship app body, x.freight = .command (.poke id ship app notificationMark body) →
        m.attempted? e h = some body ∨ ∃ j caller wait, h = .step j ∧
          m.task? j = some (.start caller (.poke ship app notificationMark body wait))) ∧
    -- the second copy comes no earlier than the delay allows after the first attempt's end
    (∀ j n, m.handled? e (.step j) = some n → ∀ later, Passage e n j m later) ∧
    -- a poke leaves the table of pokes by the request timeout after the end of its sending
    (∀ j p id ticket, m.task? j = some (.sending p) → p.note? = some (id, ticket) →
      (m.step e j).task? j ≠ some (.sending p) → ∀ later,
        Watched e id ticket (m.now + e.settings.requestTimeout.millisCeil)
          ((m.step e j).run e later)) ∧
    -- answers are taken in, and looked at, without the editor or the pending requests noticing
    (∀ j until_, m.task? j = some (.stream until_) → Discreet m (m.step e j)) ∧
    ∀ ticket ∈ noted e (trail e {} hs), ∀ j t c, m.task? j = some t → t.care? = some c →
      c.ticket = ticket → Discreet m (m.step e j) := by
  intro m
  have hk : Kept e (trail e {} hs) m := kept_run hproper
  refine ⟨run_owed orderly_initial rfl hs, fun j body ha => attempted_act hk.orderly.numbered ha _,
    fun h x hx hnew id ship app body => attempted_of_errand hx hnew,
    fun j n hh later => passage hk.orderly hh later, fun j p id ticket ht hp hend later => ?_,
    fun j until_ ht => ?_, fun ticket hticket j t c ht hc heq =>
      (private_run hproper).discreet hticket ht hc heq⟩
  · have hsees := sees_of_sent hk.orderly hk.sound ht hp hend
    exact (run_induction (P := Sees id ticket _) hsees (fun _ h hu => hu.after h) later).watched
  · by_cases hready : m.readyTask e j (.stream until_) = true
    · rw [step_of_ready ht hready]
      exact discreet_stream
    · rw [step_of_not_ready ht hready]
      exact .refl m

/-- A document is saved while the ship cannot be reached: its notification is poked once more. -/
theorem notifications_delivered_unreachable :
    let e : Surroundings :=
      { settings := { ship := "zod" }, reconnect := {}, limit := 1000, correlate := toString }
    let n : Notification := ⟨.caller 0, "textDocument/didSave", none⟩
    let hs : List Happening := [.call 0 (.notify "textDocument/didSave" none), .step 0, .step 0,
      .delivered (.error (.network "unreachable")), .step 0, .passed 1000, .step 1]
    (∀ q ∈ trail e {} hs, Proper q.1 q.2) ∧
      ((trail e {} hs).filterMap (fun q => q.1.attempted? e q.2)).Perm [n.envelope, n.envelope] ∧
      ∀ later, Passage e n 0 (run e {} (hs.take 1)) later := by
  intro e n hs
  have hproper : ∀ q ∈ trail e {} hs, Proper q.1 q.2 := proper_of_none (by decide +kernel)
  have hproper' : ∀ q ∈ trail e {} (hs.take 1), Proper q.1 q.2 := proper_of_none (by decide +kernel)
  have howed : (run e {} hs).owed e = [] := by decide +kernel
  have hhandled : ((trail e {} hs).flatMap fun q =>
      (q.1.handled? e q.2).elim [] (Notification.copies e.settings.redelivered)) =
        [n.envelope, n.envelope] := by decide +kernel
  have hall := (notifications_delivered e hs hproper).1
  rw [howed, hhandled, List.append_nil] at hall
  exact ⟨hproper, hall, (notifications_delivered e (hs.take 1) hproper').2.2.2.1 0 n rfl⟩

end Machine

end ShipBridge.Relay
