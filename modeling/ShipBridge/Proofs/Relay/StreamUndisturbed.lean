import ShipBridge.Proofs.Relay.FunctionEffects
import ShipBridge.Proofs.Session.Cursor

/-!
# What leaves the stream undisturbed

The bearings are what the event stream of the bridge depends on: where it stands in the session,
what has been received, which attempts to open it have been made, and which jobs have to do with it.
Those are its own job, the acknowledgments that it sets off, and whoever closes the session. The
steps of all other jobs leave the bearings alone, but for the first command that is delivered: with
it the stream is born.
-/

namespace ShipBridge

namespace Session

/-- Where the stream of a session stands, and how far it has come. -/
structure Heading where
  stream : Stream
  stop : Bool
  connection : Connection
  receivedAny : Bool
  received : Nat

def heading (s : Session) : Heading :=
  ⟨s.stream, s.stop, s.state.connection, s.state.receivedAny, s.state.received⟩

def Heading.born (c : Heading) : Heading := { c with stream := .born, connection := .connected }

variable {s t : Session}

theorem call?_heading {owner : Nat} {r : Request} {receipt : Receipt}
    (h : s.call? owner r = some (receipt, t)) : t.heading = s.heading := by
  have ht : s.act 0 (.call owner r) = t := by simp [act, h]
  rw [← ht, act_call_frame]
  rfl

theorem proceed?_heading {move : Move} (h : s.proceed? = some (move, t)) :
    t.heading = s.heading := by
  have ht : s.act 0 .proceed = t := by simp [act, h]
  rw [← ht, act_proceed_frame]
  rfl

theorem connect_heading : s.connect.heading = s.heading ∨
    s.state.connection = .disconnected ∧ s.connect.heading = s.heading.born := by
  unfold connect
  split
  · next h => exact .inr ⟨h, rfl⟩
  · exact .inl rfl
  · exact .inl rfl

theorem settle?_heading {a : Answer} (h : s.settle? a = some t) : t.heading = s.heading ∨
    s.state.connection = .disconnected ∧ t.heading = s.heading.born := by
  have ht : s.act 0 (.settle a) = t := by simp [act, h]
  rcases act_settle_connects (n := 0) (s := s) a with ⟨hc, hs⟩ | ⟨hd, hc, hs⟩
  · refine .inl ?_
    rw [← ht, heading, hc, hs, act_settle_frame]
    rfl
  · refine .inr ⟨hd, ?_⟩
    rw [← ht, heading, hc, hs, act_settle_frame]
    rfl

end Session

namespace Relay

/-- Does a task have to do with the stream: is it the stream's own, an acknowledgment that the
stream has set off, or the end of the session? -/
def Task.isCrew : Task → Bool
  | .stream _ | .acknowledge | .sending .acknowledge | .start _ .close => true
  | _ => false

def Output.opening? : Output → Option (Option Nat)
  | .opening resume => some resume
  | _ => none

/-- What the stream depends on. -/
structure Bearings where
  heading : Session.Heading
  openings : List (Option Nat)
  crew : List (Nat × Task)

def Bearings.without (c : Bearings) (j : Nat) : Bearings :=
  { c with crew := c.crew.filter fun p => p.1 != j }

/-- The bearings when the stream has been born and job `j` looks after it. -/
def Bearings.born (c : Bearings) (j : Nat) : Bearings :=
  { c with heading := c.heading.born, crew := c.crew ++ [(j, .stream none)] }

namespace Machine

def openings (m : Machine) : List (Option Nat) := m.log.filterMap Output.opening?

/-- The jobs that have to do with the stream. -/
def crew (m : Machine) : List (Nat × Task) := m.jobs.filter fun p => p.2.isCrew

def bearings (m : Machine) : Bearings := ⟨m.session.heading, m.openings, m.crew⟩

variable (e : Surroundings) (m : Machine)

theorem mem_crew {p : Nat × Task} : p ∈ m.crew ↔ p ∈ m.jobs ∧ p.2.isCrew = true :=
  List.mem_filter

/-! ## What leaves the bearings alone -/

theorem emit_bearings {o : Output} (ho : o.opening? = none) : (m.emit o).bearings = m.bearings := by
  simp [bearings, emit, openings, crew, ho]

theorem spawn_bearings {t : Task} (ht : t.isCrew = false) : (m.spawn t).bearings = m.bearings := by
  simp [bearings, spawn, openings, crew, ht]

theorem become_bearings {t : Task} (ht : t.isCrew = false) (j : Nat) :
    (m.become j t).bearings = m.bearings.without j := by
  have hcrew : (m.become j t).crew = m.crew.filter fun p => p.1 != j := by
    simp only [crew, become]
    induction m.jobs with
    | nil => rfl
    | cons p jobs ih =>
      rw [List.map_cons, List.filter_cons, ih]
      by_cases hj : p.1 = j
      · cases hp : p.2.isCrew <;> simp [hj, ht, hp]
      · cases hp : p.2.isCrew <;> simp [hj, hp]
  rw [bearings, hcrew]
  rfl

@[simp] theorem dismiss_bearings (j : Nat) : (m.dismiss j).bearings = m.bearings.without j := by
  simp [bearings, dismiss, openings, crew, Bearings.without, List.filter_filter, Bool.and_comm]

@[simp] theorem finish_bearings (j caller : Nat) (r : Result) (held : Option Holding) :
    (m.finish j caller r held).bearings = m.bearings.without j := by
  rw [finish, dismiss_bearings, emit_bearings _ rfl]

theorem pending_bearings (p : Pending) : ({ m with pending := p } : Machine).bearings = m.bearings :=
  rfl

@[simp] theorem send_bearings (message : Editor.Message) :
    (m.send message).2.bearings = m.bearings := by
  unfold send
  split
  · exact m.emit_bearings rfl
  · exact spawn_bearings { m with outlet := .failing } rfl
  · rfl
  · rfl

@[simp] theorem route_bearings (update : Json) : (m.route update).bearings = m.bearings := by
  unfold route
  split
  · rfl
  · exact m.send_bearings _
  · rfl

@[simp] theorem tell_bearings (j : Nat) (origin : Origin) (o : Outcome) :
    (m.tell j origin o).bearings = m.bearings.without j := by
  cases origin <;> simp [tell]

theorem afterNotification_bearings (method : String) (envelope : Json) :
    (m.afterNotification e method envelope).bearings = m.bearings := by
  unfold afterNotification
  split_ifs
  · exact spawn_bearings (m.timer e.settings.notificationDelay).2 rfl
  · rfl

theorem resume_bearings (j : Nat) (source : Source) (method : String) :
    (m.resume j source method).bearings = m.bearings.without j := by
  cases source with
  | caller n => exact m.finish_bearings j n _ none
  | editor conversation =>
    simp only [resume]
    split_ifs
    · exact m.finish_bearings j conversation _ none
    · exact m.become_bearings rfl j

@[simp] theorem startAwait_bearings (j : Nat) (origin : Origin) (f : Forwarded) :
    (m.startAwait e j origin f).bearings = m.bearings.without j := by
  cases origin with
  | caller n => exact become_bearings (m.timer e.settings.requestTimeout).2 rfl j
  | editor conversation id =>
    refine (become_bearings _ rfl j).trans ?_
    rw [spawn_bearings _ rfl]
    rfl

@[simp] theorem refuse_bearings (j : Nat) (origin : Origin) (f : Fault) :
    (m.refuse j origin f).bearings = m.bearings.without j := by
  cases origin with
  | caller n => exact m.finish_bearings j n _ none
  | editor conversation id =>
    refine (become_bearings _ rfl j).trans ?_
    rw [send_bearings]

@[simp] theorem abandon_bearings (j : Nat) : (m.abandon j).bearings = m.bearings.without j :=
  m.failPending.dismiss_bearings j

/-- What a job does once its sending has ended is no concern of the stream. -/
@[simp] theorem sent_bearings (j : Nat) (p : Purpose) (a : Session.Answer) :
    (m.sent e j p a).bearings = m.bearings.without j := by
  have hwatch (id ticket : Nat) : (m.spawnWatch e id ticket).bearings = m.bearings :=
    spawn_bearings (m.timer e.settings.requestTimeout).2 rfl
  have hstart (id ticket : Nat) : (m.startWatch e j id ticket).bearings = m.bearings.without j :=
    become_bearings (m.timer e.settings.requestTimeout).2 rfl j
  have houtcome (caller ticket : Nat) :
      (m.become j (.outcome caller ticket)).bearings = m.bearings.without j :=
    m.become_bearings rfl j
  have hfollow (current : Option (Nat × Nat)) (backoff : Retry.Backoff) :
      (m.become j (.follow current backoff)).bearings = m.bearings.without j :=
    m.become_bearings rfl j
  have hserve (current : Option (Nat × Nat)) (backoff : Retry.Backoff) :
      (m.spawn (.follow current backoff)).bearings = m.bearings := m.spawn_bearings rfl
  fun_cases sent e m j p a <;> simp [hwatch, hstart, houtcome, hfollow, hserve, pending_bearings,
    afterNotification_bearings, resume_bearings]

theorem withSession_bearings {s : Session} (h : s.heading = m.session.heading) :
    (m.withSession s).bearings = m.bearings := by
  have hs : s.stream = m.session.stream := congrArg Session.Heading.stream h
  unfold withSession
  dsimp only
  rw [hs]
  split_ifs with hborn
  · rw [hborn.1] at hborn
    cases hborn.2
  · exact congrArg (fun c => (⟨c, m.openings, m.crew⟩ : Bearings)) h

theorem withSession_born {s : Session} (hu : m.session.stream = .unborn)
    (h : s.heading = m.session.heading.born) :
    (m.withSession s).bearings = m.bearings.born m.born := by
  have hs : s.stream = .born := congrArg Session.Heading.stream h
  unfold withSession
  dsimp only
  rw [if_pos ⟨hu, hs⟩]
  simp [bearings, Bearings.born, spawn, openings, crew, Task.isCrew, h]

/-! ## The steps of the other jobs -/

variable {e m}

theorem call?_bearings {j : Nat} {r : Session.Request} {receipt : Session.Receipt} {t : Machine}
    (h : m.call? j r = some (receipt, t)) : t.bearings = m.bearings := by
  obtain ⟨⟨receipt', s⟩, hs, heq⟩ := Option.map_eq_some_iff.mp h
  obtain ⟨-, rfl⟩ := Prod.mk.inj heq
  exact m.withSession_bearings (Session.call?_heading hs)

variable (e m) (j : Nat)

@[simp] theorem forward?_bearings (method : String) (params : Option Json) :
    (m.forward? e j method params).2.bearings = m.bearings := by
  simp only [forward?]
  split
  · next t h => exact (call?_bearings h : t.bearings = _)
  · rfl

theorem notify_bearings (source : Source) (method : String) (params : Option Json) :
    (m.notify e j source method params).bearings = m.bearings.without j := by
  simp only [notify]
  split
  · next h => rw [become_bearings _ rfl, call?_bearings h]
  · rw [resume_bearings, afterNotification_bearings]

theorem request_bearings (origin : Origin) (method : String) (params : Option Json) :
    (m.request e j origin method params).bearings = m.bearings.without j := by
  have h := m.forward?_bearings e j method params
  unfold request
  split_ifs
  · cases origin with
    | caller n => exact m.finish_bearings j n _ none
    | editor conversation id =>
      refine (become_bearings _ rfl j).trans ?_
      rw [send_bearings]
  · split
    · next hf =>
      rw [hf] at h
      rw [become_bearings _ rfl, h]
    · next hf =>
      rw [hf] at h
      rw [refuse_bearings, h]

theorem stepStart_bearings (caller : Nat) {c : Call} (hc : c ≠ .close) :
    (m.stepStart e j caller c).bearings = m.bearings.without j := by
  cases c with
  | close => exact absurd rfl hc
  | notify method params => exact m.notify_bearings e j _ method params
  | request method params => exact m.request_bearings e j _ method params
  | await f => exact m.startAwait_bearings e j _ f
  | outcome ticket => exact m.become_bearings rfl j
  | converse => exact m.become_bearings rfl j
  | forward method params =>
    have h := m.forward?_bearings e j method params
    simp only [stepStart]
    split
    · next hf =>
      rw [hf] at h
      rw [become_bearings _ rfl, h]
    · next hf =>
      rw [hf] at h
      rw [finish_bearings, h]
  | serve =>
    simp only [stepStart]
    split
    · next h => rw [become_bearings _ rfl, call?_bearings h]
    · rw [finish_bearings, spawn_bearings _ rfl]
  | poke | subscribe | unsubscribe =>
    simp only [stepStart]
    split
    · next h => rw [become_bearings _ rfl, call?_bearings h]
    · exact m.finish_bearings j caller _ none

theorem stepDetached_bearings (backoff : Retry.Backoff) :
    (m.stepDetached e j backoff).bearings = m.bearings.without j := by
  unfold stepDetached
  split_ifs
  · exact m.abandon_bearings j
  · split
    · exact m.abandon_bearings j
    · split
      · exact dismiss_bearings { m with stuck := true } j
      · next d _ => exact become_bearings (m.timer d).2 rfl j

theorem stepFollow_bearings (ticket seen : Nat) (backoff : Retry.Backoff) :
    (m.stepFollow j ticket seen backoff).bearings = m.bearings.without j := by
  unfold stepFollow
  dsimp only
  split
  · rw [become_bearings _ rfl, route_bearings]
  · exact m.become_bearings rfl j
  · exact m.become_bearings rfl j
  · exact m.become_bearings rfl j

theorem stepPause_bearings (backoff : Retry.Backoff) :
    (m.stepPause e j backoff).bearings = m.bearings.without j := by
  unfold stepPause
  split
  · next h => rw [become_bearings _ rfl, call?_bearings h]
  · exact m.abandon_bearings j

theorem conclude_bearings (origin : Origin) (f : Forwarded) (o : Outcome) :
    (m.conclude j origin f o).bearings = m.bearings.without j := by
  unfold conclude
  cases o with
  | ok v => exact m.tell_bearings j origin _
  | error fault =>
    rw [tell_bearings]
    rfl

theorem stepTurn_bearings (conversation : Nat) (t : Editor.Turn) :
    (m.stepTurn e j conversation t).bearings = m.bearings ∨
      (m.stepTurn e j conversation t).bearings = m.bearings.without j := by
  cases t with
  | request id method params => exact .inr (m.request_bearings e j _ method params)
  | notification method params => exact .inr (m.notify_bearings e j _ method params)
  | passed => exact .inl rfl
  | unreadable f =>
    have h := m.send_bearings (.unreadable f)
    simp only [stepTurn]
    split
    · next hs =>
      rw [hs] at h
      exact .inl h
    · next hs =>
      rw [hs] at h
      exact .inr (by rw [finish_bearings, h])

theorem stepConverse_bearings (conversation : Nat) :
    (m.stepConverse e j conversation).bearings = m.bearings ∨
      (m.stepConverse e j conversation).bearings = m.bearings.without j := by
  unfold stepConverse
  split
  · next rest _ => exact stepTurn_bearings e { m with input := rest } j conversation _
  · exact .inr (m.finish_bearings j conversation _ none)
  · exact .inr (m.finish_bearings j conversation _ none)
  · exact .inl rfl

/-- A step of job `j`, if it is not the stream's own. -/
inductive Aside (j : Nat) (m m' : Machine) : Prop where
  | stays (eq : m'.bearings = m.bearings)
  | leaves (eq : m'.bearings = m.bearings.without j)
  | bears (unconnected : m.session.state.connection = .disconnected)
      (eq : m'.bearings = (m.bearings.born m.born).without j)

theorem stepSending_aside (hm : m.session.Joined) (p : Purpose) :
    Aside j m (m.stepSending e j p) := by
  unfold stepSending
  split
  · next batch s h =>
    refine .stays ((emit_bearings _ rfl).trans ?_)
    exact congrArg (fun c => (⟨c, m.openings, m.crew⟩ : Bearings)) (Session.proceed?_heading h)
  · next a s h =>
    refine .leaves ?_
    rw [sent_bearings, m.withSession_bearings (Session.proceed?_heading h)]
  · split
    · exact .stays rfl
    · split
      · exact .stays rfl
      · next s h =>
        rcases Session.settle?_heading h with hs | ⟨hd, hs⟩
        · refine .leaves ?_
          rw [sent_bearings, withSession_bearings { m with delivered := none } hs]
          rfl
        · refine .bears hd ?_
          rw [sent_bearings, withSession_born { m with delivered := none } (hm hd) hs]
          rfl

theorem stepTask_aside (hm : m.session.Joined) {t : Task} (hs : ∀ u, t ≠ .stream u)
    (ha : t ≠ .acknowledge) (hc : ∀ n, t ≠ .start n .close) : Aside j m (m.stepTask e j t) := by
  cases t with
  | stream u => exact absurd rfl (hs u)
  | acknowledge => exact absurd rfl ha
  | start caller c =>
    exact .leaves (m.stepStart_bearings e j caller fun h => hc caller (h ▸ rfl))
  | sending p => exact m.stepSending_aside e j hm p
  | pause backoff until_ => exact .leaves (m.stepPause_bearings e j backoff)
  | converse conversation =>
    exact (m.stepConverse_bearings e j conversation).elim .stays .leaves
  | hangUp => exact .leaves (dismiss_bearings { m with outlet := .gone } j)
  | outcome caller ticket =>
    simp only [stepTask]
    split
    · exact .leaves (m.finish_bearings j caller _ none)
    · exact .leaves (m.finish_bearings j caller _ none)
    · exact .stays rfl
  | closing caller =>
    simp only [stepTask]
    split
    · exact .leaves (m.finish_bearings j caller _ none)
    · exact .leaves (m.finish_bearings j caller _ none)
    · exact .stays rfl
  | watch id ticket until_ =>
    simp only [stepTask]
    split
    · exact .leaves (m.dismiss_bearings j)
    · split_ifs
      · exact .leaves (dismiss_bearings { m with session := (m.session.forget id).2 } j)
      · exact .stays rfl
  | redeliver envelope at_ =>
    simp only [stepTask]
    split
    · next h => exact .leaves (by rw [become_bearings _ rfl, call?_bearings h])
    · exact .leaves (m.dismiss_bearings j)
  | await origin f until_ =>
    rcases m.stepTask_await e j origin f until_ with h | ⟨o, h⟩
    · exact .stays (congrArg bearings h)
    · rw [h]
      exact .leaves (m.conclude_bearings j origin f o)
  | follow current backoff =>
    cases current with
    | none => exact .leaves (m.stepDetached_bearings e j backoff)
    | some p => exact .leaves (m.stepFollow_bearings j p.1 p.2 backoff)

/-! ## What happens without the stream's own job -/

/-- What happens without the stream's own job opens no stream, lets no acknowledgment begin, and
starts the stream at most. -/
structure Apart (m m' : Machine) : Prop where
  openings : m'.openings = m.openings
  streams : (m'.session.heading = m.session.heading ∧
      ∀ i u, (i, .stream u) ∈ m'.jobs ↔ (i, .stream u) ∈ m.jobs) ∨
    (m.session.state.connection = .disconnected ∧
      m'.session.heading = m.session.heading.born ∧ ∀ i u, (i, .stream u) ∈ m'.jobs ↔
        (i, .stream u) ∈ m.jobs ∨ (i = m.born ∧ u = none))
  begun : ∀ i, (i, .acknowledge) ∈ m'.jobs → (i, .acknowledge) ∈ m.jobs
  sent : ∀ i, (i, .sending .acknowledge) ∈ m'.jobs → (i, .sending .acknowledge) ∈ m.jobs ∨
    ((i, .acknowledge) ∈ m.jobs ∧ m'.session = m.session.callAcknowledge i)
  closing : ∀ i n, (i, .start n .close) ∈ m'.jobs → (i, .start n .close) ∈ m.jobs

variable {e m} {m' : Machine} {j}

theorem mem_jobs_iff {p : Nat × Task} (h : p.2.isCrew = true) :
    p ∈ m.jobs ↔ p ∈ m.bearings.crew := by
  rw [bearings, mem_crew]
  exact (and_iff_left h).symm

/-- No job that has to do with the stream is new, and those that look after it stay. -/
theorem apart_of_crew (hc : m'.bearings.heading = m.bearings.heading)
    (ho : m'.bearings.openings = m.bearings.openings)
    (hstreams : ∀ i u, (i, .stream u) ∈ m'.bearings.crew ↔ (i, .stream u) ∈ m.bearings.crew)
    (hcrew : ∀ p ∈ m'.bearings.crew, p ∈ m.bearings.crew) : Apart m m' where
  openings := ho
  streams := by
    refine .inl ⟨hc, fun i u => ?_⟩
    rw [mem_jobs_iff rfl, mem_jobs_iff rfl]
    exact hstreams i u
  begun i h := (mem_jobs_iff rfl).mpr (hcrew _ ((mem_jobs_iff rfl).mp h))
  sent i h := .inl ((mem_jobs_iff rfl).mpr (hcrew _ ((mem_jobs_iff rfl).mp h)))
  closing i n h := (mem_jobs_iff rfl).mpr (hcrew _ ((mem_jobs_iff rfl).mp h))

theorem apart_of_bearings (h : m'.bearings = m.bearings) : Apart m m' :=
  apart_of_crew (by rw [h]) (by rw [h]) (fun i u => by rw [h]) (fun p hp => h ▸ hp)

theorem apart_of_born (hd : m.session.state.connection = .disconnected)
    (ho : m'.openings = m.openings) (hh : m'.session.heading = m.session.heading.born)
    (hcrew : ∀ p, p ∈ m'.crew → p ∈ m.crew ∨ p = (m.born, .stream none))
    (hstreams : ∀ i u, (i, .stream u) ∈ m.crew → (i, .stream u) ∈ m'.crew)
    (hborn : (m.born, .stream none) ∈ m'.crew) : Apart m m' := by
  have hother {p : Nat × Task} (hp : p.2.isCrew = true) (hs : p.2 ≠ .stream none)
      (h : p ∈ m'.jobs) : p ∈ m.jobs := by
    rcases hcrew p (mem_crew m' |>.mpr ⟨h, hp⟩) with h | rfl
    · exact ((mem_crew m).mp h).1
    · exact absurd rfl hs
  refine ⟨ho, .inr ⟨hd, hh, fun i u => ⟨fun h => ?_, ?_⟩⟩, fun i => hother rfl nofun,
    fun i h => .inl (hother rfl nofun h), fun i n => hother rfl nofun⟩
  · rcases hcrew _ ((mem_crew m').mpr ⟨h, rfl⟩) with h | h
    · exact .inl ((mem_crew m).mp h).1
    · obtain ⟨rfl, hu⟩ := Prod.mk.inj h
      exact .inr ⟨rfl, Task.stream.inj hu⟩
  · rintro (h | ⟨rfl, rfl⟩)
    · exact ((mem_crew m').mp (hstreams i u ((mem_crew m).mpr ⟨h, rfl⟩))).1
    · exact ((mem_crew m').mp hborn).1

theorem Aside.apart (hn : m.Numbered) {t : Task} (ht : m.task? j = some t)
    (hs : ∀ u, t ≠ .stream u) (h : Aside j m m') : Apart m m' := by
  -- the job that works is not the stream's, and has been there before the stream is born
  have hne {i : Nat} {u : Option Timer} (hi : (i, .stream u) ∈ m.jobs) : i ≠ j := by
    rintro rfl
    rw [hn.task?_of_mem hi] at ht
    exact hs u (Option.some.inj ht).symm
  have hlt : m.born ≠ j := Nat.ne_of_gt (hn.below _ (mem_of_task? ht))
  cases h with
  | stays eq => exact apart_of_bearings eq
  | leaves eq =>
    refine apart_of_crew (by rw [eq]; rfl) (by rw [eq]; rfl) (fun i u => ?_) fun p hp => ?_
    · rw [eq]
      simp only [Bearings.without, List.mem_filter, bne_iff_ne, ne_eq, and_iff_left_iff_imp]
      exact fun h => hne ((mem_jobs_iff rfl).mpr h)
    · rw [eq] at hp
      exact List.mem_of_mem_filter hp
  | bears unconnected eq =>
    have hcrew : m'.crew = (m.crew ++ [(m.born, Task.stream none)]).filter fun p => p.1 != j :=
      congrArg Bearings.crew eq
    refine apart_of_born unconnected (congrArg Bearings.openings eq) (congrArg Bearings.heading eq)
      (fun p hp => ?_) (fun i u h => ?_) ?_
    · rw [hcrew] at hp
      simpa using List.mem_of_mem_filter hp
    · rw [hcrew]
      simp [h, hne ((mem_crew m).mp h).1]
    · rw [hcrew]
      simp [hlt]

/-- An acknowledgment that the stream has set off queues for the line. -/
theorem apart_of_acknowledge (hn : m.Numbered) (ht : m.task? j = some .acknowledge) :
    Apart m (m.stepTask e j .acknowledge) := by
  have hmem {p : Nat × Task} : p ∈ (m.stepTask e j .acknowledge).jobs ↔
      (p ∈ m.jobs ∧ p.1 ≠ j) ∨ (p = (j, .sending .acknowledge) ∧ ∃ u, (j, u) ∈ m.jobs) :=
    mem_become (m := { m with session := m.session.callAcknowledge j })
  have hkept {p : Nat × Task} (h : p ∈ (m.stepTask e j .acknowledge).jobs)
      (hp : p.2 ≠ .sending .acknowledge) : p ∈ m.jobs := by
    rcases hmem.mp h with ⟨h, -⟩ | ⟨rfl, -⟩
    · exact h
    · exact absurd rfl hp
  refine ⟨rfl, .inl ⟨rfl, fun i u => ⟨fun h => hkept h nofun, fun h => ?_⟩⟩,
    fun i h => hkept h nofun, fun i h => ?_, fun i n h => hkept h nofun⟩
  · refine hmem.mpr (.inl ⟨h, ?_⟩)
    rintro rfl
    rw [hn.task?_of_mem h] at ht
    cases ht
  · rcases hmem.mp h with ⟨h, -⟩ | ⟨h, -⟩
    · exact .inl h
    · obtain ⟨rfl, -⟩ := Prod.mk.inj h
      exact .inr ⟨mem_of_task? ht, rfl⟩

theorem connect_apart (hm : m.session.Joined) :
    Apart m (m.withSession m.session.connect) := by
  rcases Session.connect_heading (s := m.session) with h | ⟨hd, h⟩
  · exact apart_of_bearings (m.withSession_bearings h)
  · have heq := m.withSession_born (hm hd) h
    have hcrew : (m.withSession m.session.connect).crew =
        m.crew ++ [(m.born, Task.stream none)] := congrArg Bearings.crew heq
    refine apart_of_born hd (congrArg Bearings.openings heq) (congrArg Bearings.heading heq)
      (fun p hp => ?_) (fun i u h => ?_) ?_
    · simpa [hcrew] using hp
    · simp [hcrew, h]
    · simp [hcrew]

/-- Whatever happens apart from a step of the stream's own job, if nobody closes the session. -/
theorem after_apart (hn : m.Numbered) (hm : m.session.Joined)
    (hc : ∀ i n, (i, .start n .close) ∉ m.jobs) {h : Happening} (hcall : ∀ n, h ≠ .call n .close)
    (hstep : ∀ j u, h = .step j → m.task? j ≠ some (.stream u)) : Apart m (m.after e h) := by
  cases h with
  | step j =>
    simp only [after, step]
    cases ht : m.task? j with
    | none => exact apart_of_bearings rfl
    | some t =>
      have hs (u : Option Timer) : t ≠ .stream u := fun h => hstep j u rfl (h ▸ ht)
      dsimp only
      split_ifs
      · by_cases ha : t = .acknowledge
        · subst ha
          exact apart_of_acknowledge hn ht
        · refine (stepTask_aside e m j hm hs ha fun n h => ?_).apart hn ht hs
          exact hc j n (h ▸ mem_of_task? ht)
      · exact apart_of_bearings rfl
  | call n c =>
    refine apart_of_bearings (m.spawn_bearings ?_)
    cases c with
    | close => exact absurd rfl (hcall n)
    | _ => rfl
  | connect => exact connect_apart hm
  | updated json => exact apart_of_bearings (m.route_bearings json)
  | _ => exact apart_of_bearings rfl

end Machine

end Relay

end ShipBridge
