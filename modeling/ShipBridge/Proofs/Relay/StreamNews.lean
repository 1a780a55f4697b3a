import ShipBridge.Proofs.Relay.StreamUndisturbed
import ShipBridge.Proofs.Session.Coverage

/-!
# The news of the stream

What there is to tell of the stream is what the transport is asked for and what it makes known: the
stream is about to be opened, has been opened, or has failed, be it that it could not be opened, has
ended or has broken. Where the stream stands after a run, and which job looks after it, follows from
the news that there has been.
-/

namespace ShipBridge

namespace Relay

/-- What there is to tell of the stream: that it is about to be opened, that it has been, or that it
could not be, has ended or has broken. -/
inductive News where
  | opens (resume : Option Nat)
  | succeeds
  | fails
deriving DecidableEq

def streak (past : List News) : Nat := (past.reverse.takeWhile (· != .succeeds)).count .fails

theorem streak_opens (past : List News) (resume : Option Nat) :
    streak (past ++ [.opens resume]) = streak past := by simp [streak]

theorem streak_succeeds (past : List News) : streak (past ++ [.succeeds]) = 0 := by simp [streak]

theorem streak_fails (past : List News) : streak (past ++ [.fails]) = streak past + 1 := by
  simp [streak]

namespace Machine

/-- What the job of the stream hears when it looks. -/
def heard? (m : Machine) : Option News :=
  match m.session.stream with
  | .opening .. => m.reached.map fun
    | .ok () => .succeeds
    | .error _ => .fails
  | .reading => match m.items with
    | .ok _ :: _ => none
    | .error _ :: _ => some .fails
    | [] => if m.streamEnded then some .fails else none
  | _ => none

/-- The news that comes with a happening: the transport has been asked to open the stream once more,
or the job of the stream has heard something. -/
def news? (e : Surroundings) (m : Machine) (h : Happening) : Option News :=
  if m.openings.length < (m.after e h).openings.length then
    (m.after e h).openings.head?.map .opens
  else match h with
    | .step j => match m.task? j with
      | some (.stream _) => m.heard?
      | _ => none
    | _ => none

def news (e : Surroundings) (m : Machine) (hs : List Happening) : List News :=
  (trail e m hs).filterMap fun p => p.1.news? e p.2

/-- The number of the event that comes with a happening, if it is taken in and has one. -/
def accepted? (m : Machine) : Happening → Option Nat
  | .step j => match m.task? j, m.items with
    | some (.stream _), .ok event :: _ => m.session.accepted? (.receive event)
    | _, _ => none
  | _ => none

def accepted (e : Surroundings) (m : Machine) (hs : List Happening) : List Nat :=
  (trail e m hs).filterMap fun p => p.1.accepted? p.2

variable {e : Surroundings} {m m' : Machine} {past : List News} {taken : List Nat} {i j : Nat}
  {u v : Option Timer} {n : Nat}

/-! ## The news of a happening -/

theorem openings_eq (m : Machine) : m.openings = m.demanded.filterMap fun
    | .opening resume => some resume
    | _ => none := by
  rw [openings, demanded, List.filterMap_filterMap]
  refine List.filterMap_congr fun o _ => ?_
  cases o <;> rfl

theorem openings_of_front {d : List Session.Demand} (h : m'.demanded = d ++ m.demanded)
    (hd : ∀ x ∈ d, ∀ resume, x ≠ .opening resume) : m'.openings = m.openings := by
  rw [openings_eq, openings_eq, h, List.filterMap_append, List.filterMap_eq_nil_iff.mpr,
    List.nil_append]
  intro x hx
  cases x with
  | opening resume => exact absurd rfl (hd _ hx resume)
  | _ => rfl

/-- A happening that opens nothing brings what the stream's job hears, if it takes its step. -/
theorem news?_step (ht : m.task? j = some (.stream u))
    (ho : (m.step e j).openings = m.openings) : m.news? e (.step j) = m.heard? := by
  simp only [news?, after, ho, Nat.lt_irrefl, if_false, ht]

theorem news?_opens {resume : Option Nat} {h : Happening}
    (ho : (m.after e h).openings = resume :: m.openings) :
    m.news? e h = some (.opens resume) := by
  simp [news?, ho]

/-- What happens without the stream's own job is no news of it. -/
theorem news?_apart {h : Happening} (ha : Apart m (m.after e h))
    (hstep : ∀ j u, h = .step j → m.task? j ≠ some (.stream u)) : m.news? e h = none := by
  unfold news?
  rw [ha.openings, if_neg (Nat.lt_irrefl _)]
  split
  · next j =>
    split
    · next u ht => exact absurd ht (hstep j u rfl)
    · rfl
  · rfl

theorem accepted?_apart {h : Happening}
    (hstep : ∀ j u, h = .step j → m.task? j ≠ some (.stream u)) : m.accepted? h = none := by
  cases h with
  | step j =>
    simp only [accepted?]
    split
    · next u _ _ ht _ => exact absurd ht (hstep j u rfl)
    · rfl
  | _ => rfl

theorem news_append (hs ks : List Happening) :
    news e m (hs ++ ks) = news e m hs ++ news e (m.run e hs) ks := by
  rw [news, trail_append, List.filterMap_append]
  rfl

theorem news_cons (h : Happening) (hs : List Happening) :
    news e m (h :: hs) = (m.news? e h).toList ++ news e (m.after e h) hs := by
  rw [news, trail, List.filterMap_cons]
  cases m.news? e h <;> rfl

theorem news_singleton (h : Happening) : news e m [h] = (m.news? e h).toList := by
  rw [news_cons, news, trail, List.filterMap_nil, List.append_nil]

theorem accepted_append (hs ks : List Happening) :
    accepted e m (hs ++ ks) = accepted e m hs ++ accepted e (m.run e hs) ks := by
  rw [accepted, trail_append, List.filterMap_append]
  rfl

theorem accepted_singleton (h : Happening) : accepted e m [h] = (m.accepted? h).toList := by
  rw [accepted, trail, trail, List.filterMap_cons, List.filterMap_nil]
  cases m.accepted? h <;> rfl

/-! ## The job that looks after the stream -/

def Unmanned (m : Machine) : Prop := ∀ i u, (i, .stream u) ∉ m.jobs

def Manned (m : Machine) (j : Nat) (u : Option Timer) : Prop :=
  ∀ i v, (i, .stream v) ∈ m.jobs ↔ i = j ∧ v = u

theorem Manned.mem (h : m.Manned j u) : (j, .stream u) ∈ m.jobs := (h j u).mpr ⟨rfl, rfl⟩

theorem Manned.become (h : m.Manned j u) (v : Option Timer) :
    (m.become j (.stream v)).Manned j v := by
  intro i w
  rw [mem_become]
  constructor
  · rintro (⟨hmem, hi⟩ | ⟨heq, -⟩)
    · exact absurd ((h i w).mp hmem).1 hi
    · obtain ⟨rfl, hw⟩ := Prod.mk.inj heq
      exact ⟨rfl, Task.stream.inj hw⟩
  · rintro ⟨rfl, rfl⟩
    exact .inr ⟨rfl, _, h.mem⟩

theorem Manned.dismiss (h : m.Manned j u) : (m.dismiss j).Unmanned := by
  intro i w hmem
  obtain ⟨hmem, hi⟩ := mem_dismiss.mp hmem
  exact hi ((h i w).mp hmem).1

theorem Manned.append (h : m.Manned j u) {new : List (Nat × Task)}
    (hnew : ∀ p ∈ new, ∀ v, p.2 ≠ .stream v) (hjobs : m'.jobs = m.jobs ++ new) :
    m'.Manned j u := by
  intro i w
  rw [hjobs, List.mem_append, h i w, or_iff_left]
  exact fun hmem => hnew _ hmem w rfl

/-- Where the stream stands, and how that comes from the news. -/
inductive Stage (n : Nat) (m : Machine) (past : List News) : Prop where
  | unborn (stream : m.session.stream = .unborn) (idle : m.Unmanned) (silent : past = [])
  | born (stream : m.session.stream = .born) (j : Nat) (manned : m.Manned j none)
      (silent : past = [])
  | opening (resume : Option Nat) (backoff : Retry.Backoff) (again : Bool)
      (stream : m.session.stream = .opening resume backoff again) (j : Nat)
      (manned : m.Manned j none) (count : streak past = backoff.failures)
      (allowed : backoff.failures ≤ n) (failed : again = true ↔ .fails ∈ past)
  | reading (stream : m.session.stream = .reading) (j : Nat) (manned : m.Manned j none)
      (count : streak past = 0)
  | pausing (backoff : Retry.Backoff) (stream : m.session.stream = .pausing backoff) (j : Nat)
      (t : Timer) (manned : m.Manned j (some t)) (count : streak past = backoff.failures)
      (allowed : backoff.failures ≤ n) (failed : .fails ∈ past)
  | stuck (backoff : Retry.Backoff) (stream : m.session.stream = .pausing backoff)
      (idle : m.Unmanned)
  | finished (stream : m.session.stream = .finished) (idle : m.Unmanned)

theorem Stage.congr (h : Stage n m past) (hs : m'.session.stream = m.session.stream)
    (hj : ∀ i u, (i, .stream u) ∈ m'.jobs ↔ (i, .stream u) ∈ m.jobs) : Stage n m' past := by
  have hunmanned (hm : m.Unmanned) : m'.Unmanned := fun i u h => hm i u ((hj i u).mp h)
  have hmanned {j : Nat} {u : Option Timer} (hm : m.Manned j u) : m'.Manned j u :=
    fun i v => (hj i v).trans (hm i v)
  cases h with
  | unborn stream idle silent => exact .unborn (hs.trans stream) (hunmanned idle) silent
  | born stream j manned silent => exact .born (hs.trans stream) j (hmanned manned) silent
  | opening resume backoff again stream j manned count allowed failed =>
    exact .opening resume backoff again (hs.trans stream) j (hmanned manned) count allowed failed
  | reading stream j manned count => exact .reading (hs.trans stream) j (hmanned manned) count
  | pausing backoff stream j t manned count allowed failed =>
    exact .pausing backoff (hs.trans stream) j t (hmanned manned) count allowed failed
  | stuck backoff stream idle => exact .stuck backoff (hs.trans stream) (hunmanned idle)
  | finished stream idle => exact .finished (hs.trans stream) (hunmanned idle)

theorem Stage.apart (h : Stage n m past) (hm : m.session.Joined) (ha : Apart m m') :
    Stage n m' past := by
  rcases ha.streams with ⟨hh, hj⟩ | ⟨hd, hh, hj⟩
  · exact h.congr (congrArg Session.Heading.stream hh) hj
  · have hu := hm hd
    have hb : m'.session.stream = .born := congrArg Session.Heading.stream hh
    cases h with
    | unborn stream idle silent =>
      refine .born hb m.born (fun i v => ?_) silent
      rw [hj, or_iff_right (idle i v)]
    | _ => simp_all

end Machine

end Relay

end ShipBridge
