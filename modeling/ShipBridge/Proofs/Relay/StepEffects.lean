import ShipBridge.Proofs.Relay.FunctionEffects

/-!
# What a step does to the books

A step of a job puts one of few things down in the books: the job goes on with what it has to see
to, it calls for something to be sent, it uses the line, its sending ends, or it is done with what
it has had to see to.
-/

namespace ShipBridge.Relay

open Session (Answer Receipt)

namespace Machine

variable {e : Surroundings} {m m' u : Machine} {j : Nat} {t : Task}

/-- A step of job `j` as the books tell of it. -/
inductive Deed (e : Surroundings) (j : Nat) (m m' : Machine) : Prop where
  | stays (eq : m'.books = m.books)
  | goesOn (next : Option Task) (s : Session) (p : Pending) (issued : Nat) (input : List UInt8)
      (silent : (m.own j).bind Task.purpose? = none) (still : next.bind Task.purpose? = none)
      (care : next.bind Task.care? = (m.own j).bind Task.care?)
      (acts : s = m.session ∨ ∃ a : Session.Action, a.isQuiet = true ∧
        s = m.session.act e.reconnect.maxAttempts a)
      (fades : Fades e m.pending m.issued p issued)
      (talks : next.any Task.talks = true ∨ input ≠ m.input → (m.own j).any Task.talks = true)
      (eq : m'.books =
        ({ m.books with session := s, pending := p, issued, input } : Books).next j next)
  | calls (r : Session.Request) (receipt : Receipt) (s : Session) (p : Purpose)
      (input : List UInt8)
      (silent : (m.own j).bind Task.purpose? = none) (free : (m.own j).bind Task.care? = none)
      (call : m.session.call? j r = some (receipt, s)) (care : p.care? = Care.ofReceipt? receipt)
      (talks : p.isInline = true ∨ input ≠ m.input → (m.own j).any Task.talks = true)
      (eq : m'.books =
        ({ m.books with session := s, input } : Books).next j (some (.sending p)))
  | forwards (r : Session.Request) (f : Forwarded) (s : Session) (p : Purpose)
      (input : List UInt8)
      (silent : (m.own j).bind Task.purpose? = none) (free : (m.own j).bind Task.care? = none)
      (call : m.session.call? j r = some (.poke f.poke f.ticket, s))
      (care : p.care? = some (.ofRequest f))
      (key : f.correlation = e.correlate (m.issued + 1)) (slot : f.slot = m.pending.slots.length)
      (talks : p.isInline = true ∨ input ≠ m.input → (m.own j).any Task.talks = true)
      (eq : m'.books = ({ m.books with
        session := s, pending := (m.pending.enter f.correlation).2, issued := m.issued + 1,
        input } : Books).next j (some (.sending p)))
  | acknowledges (silent : (m.own j).bind Task.purpose? = none)
      (free : (m.own j).bind Task.care? = none)
      (eq : m'.books = ({ m.books with session := m.session.callAcknowledge j } : Books).next j
        (some (.sending .acknowledge)))
  | puts (p : Purpose) (batch : List Wire.Command) (s : Session)
      (own : m.own j = some (.sending p)) (granted : m.session.line.granted? = some j)
      (send : m.session.proceed? = some (.send batch, s))
      (eq : m'.books = { m.books with session := s, puts := batch :: m.books.puts })
  | ends (p : Purpose) (a : Answer) (s : Session) (next : Option Task) (new : Option (Nat × Task))
      (held : Option Holding) (q : Pending)
      (own : m.own j = some (.sending p)) (passes : m.session.Passes j a s)
      (still : next.bind Task.purpose? = none)
      (plain : ∀ r, new = some r → r.2.purpose? = none ∧ r.2.talks = false)
      (hands : List.Forall₂ Care.Passes (p.kept a) (handed next new held))
      (failed : ∀ f, a = .error f → ∀ c g, p.care? = some c → c.request? = some g →
        q = m.pending.erase g.correlation)
      (fades : Fades e m.pending m.issued q m.issued)
      (talks : next.any Task.talks = true → p.isInline = true)
      (resumes : p.isInline = true → next = p.resumed)
      (eq : m'.books = (({ m.books with
        session := s, pending := q, held := held.toList ++ m.books.held } : Books).next j
          next).also new)
  | settles (c : Care) (care : (m.own j).bind Task.care? = some c) (plain : c.request? = none)
      (silent : (m.own j).bind Task.purpose? = none)
      (outcome : (m.session.state.pokes.slot c.ticket).outcome?.isSome = true)
      (eq : m'.books = m.books.next j none)
  | forgets (c : Care) (id : Nat) (care : (m.own j).bind Task.care? = some c)
      (silent : (m.own j).bind Task.purpose? = none) (poke : c.poke? = some id)
      (eq : m'.books = ({ m.books with
        session := (m.session.forget id).2
        pending := c.request?.elim m.pending fun f => m.pending.erase f.correlation } :
          Books).next j none)
  | concludes (origin : Origin) (f : Forwarded) (t : Timer) (v : Json)
      (own : m.own j = some (.await origin f t)) (slot : m.pending.slot? f.slot = some (.ok v))
      (eq : m'.books = m.books.next j none)

section Idle

/-! A job that the books do not tell of may lead the session on, let go of entries, or call for
something to be sent. -/

variable (hn : m.Numbered) (free : m.own j = none)

include hn free

theorem deed_idle {s : Session} {p : Pending}
    (acts : s = m.session ∨ ∃ a : Session.Action, a.isQuiet = true ∧
      s = m.session.act e.reconnect.maxAttempts a)
    (fades : Fades e m.pending m.issued p m.issued)
    (eq : m'.books = { m.books with session := s, pending := p }) : Deed e j m m' := by
  refine .goesOn none s p m.issued m.input (by rw [free]; rfl) rfl (by rw [free]) acts fades ?_ ?_
  · rintro (h | h)
    · cases h
    · exact absurd rfl h
  · rw [eq, ← idle_books hn free]
    rfl

theorem deed_next {s : Session} {p : Pending}
    (acts : s = m.session ∨ ∃ a : Session.Action, a.isQuiet = true ∧
      s = m.session.act e.reconnect.maxAttempts a)
    (fades : Fades e m.pending m.issued p m.issued)
    (eq : m'.books = ({ m.books with session := s, pending := p } : Books).next j none) :
    Deed e j m m' := deed_idle hn free acts fades (eq.trans (idle_books hn free s p))

theorem deed_act {s : Session} {a : Session.Action} (ha : a.isQuiet = true)
    (hs : s = m.session.act e.reconnect.maxAttempts a)
    (eq : m'.books = { m.books with session := s }) : Deed e j m m' :=
  deed_idle hn free (.inr ⟨a, ha, hs⟩) (.refl e _ _) eq

theorem deed_still (eq : m'.books = m.books.next j none) : Deed e j m m' :=
  deed_next hn free (.inl rfl) (.refl e _ _) eq

omit hn in
theorem deed_call (hj : ∃ t, (j, t) ∈ m.jobs) {r : Session.Request} {receipt : Receipt}
    (h : m.call? j r = some (receipt, u)) {p : Purpose} (hcare : p.care? = Care.ofReceipt? receipt)
    (hinline : p.isInline = false) : Deed e j m (u.become j (.sending p)) := by
  obtain ⟨s, hs, hu⟩ := call?_books h
  obtain ⟨t, ht⟩ := hj
  refine .calls r receipt s p m.input (by rw [free]; rfl) (by rw [free]; rfl) hs hcare ?_ ?_
  · rintro (hi | hi)
    · rw [hinline] at hi
      cases hi
    · exact absurd rfl hi
  · rw [books_become ⟨t, (call?_keeps h).2 _ ht⟩ rfl, hu]
    rfl

end Idle

/-! ## Sending -/

theorem sent_deed {p : Purpose} {a : Answer} {s : Session} (hn : m.Numbered)
    (ht : m.task? j = some (.sending p)) (hpass : m.session.Passes j a s)
    (hu : u.books = { m.books with session := s }) (hjobs : ∀ r ∈ m.jobs, r ∈ u.jobs)
    (hborn : m.born ≤ u.born) : Deed e j m (u.sent e j p a) := by
  have hown := own_of_task? ht rfl
  have hj : ∃ t, (j, t) ∈ u.jobs := ⟨_, hjobs _ (mem_of_task? ht)⟩
  have hlt : j < u.born := Nat.lt_of_lt_of_le (hn.below _ (mem_of_task? ht)) hborn
  have hpending : u.pending = m.pending := congrArg Books.pending hu
  have hissued : u.issued = m.issued := congrArg Books.issued hu
  cases a with
  | ok =>
    obtain ⟨next, new, held, heq, hstill, hplain, hhands, htalks, hresumes⟩ :=
      sent_ok_books (e := e) hj hlt p
    refine .ends p _ s next new held m.pending hown hpass hstill hplain hhands nofun
      (.refl e _ _) htalks hresumes ?_
    rw [heq, hu]
    rfl
  | error f =>
    obtain ⟨next, q, heq, hcare, hstill, htalks, hresumes, hfades, hfailed⟩ :=
      sent_error_books (e := e) hj p f
    rw [hpending] at hfades hfailed
    rw [hissued] at hfades
    refine .ends p _ s next none none q hown hpass hstill nofun ?_ (fun _ _ => hfailed) hfades
      htalks hresumes ?_
    · rw [handed, hcare]
      exact .nil
    · rw [heq, hu]
      simp [Books.also, Books.next]

theorem stepSending_deed {p : Purpose} (hn : m.Numbered) (ht : m.task? j = some (.sending p))
    (hready : m.readyTask e j (.sending p) = true) : Deed e j m (m.stepSending e j p) := by
  have hown := own_of_task? ht rfl
  have hkeeps (v : Machine) (s : Session) (hv : v.books = m.books) (hjobs : v.jobs = m.jobs)
      (hborn : v.born = m.born) : (v.withSession s).books = { m.books with session := s } ∧
        (∀ r ∈ m.jobs, r ∈ (v.withSession s).jobs) ∧ m.born ≤ (v.withSession s).born := by
    refine ⟨by rw [books_withSession, hv], ?_, ?_⟩
    all_goals
      unfold withSession
      dsimp only
      split_ifs
    · exact fun r hr => List.mem_append_left _ (hjobs ▸ hr)
    · exact fun r hr => hjobs ▸ hr
    · exact hborn ▸ Nat.le_succ _
    · exact Nat.le_of_eq hborn.symm
  have hwait : m.session.line.granted? = some j ∨ m.session.line.sending? = some j := by
    simp only [readyTask, Bool.or_eq_true, beq_iff_eq, Bool.and_eq_true] at hready
    exact hready.imp id And.left
  unfold stepSending
  split
  · next batch s h =>
    have hgranted : m.session.line.granted? = some j := by
      refine hwait.resolve_right fun hs => ?_
      rw [Session.sending?_of_proceed? h] at hs
      cases hs
    refine .puts p batch s hown hgranted h ?_
    rw [books_emit]
    rfl
  · next a s h =>
    have hgranted : m.session.line.granted? = some j := by
      refine hwait.resolve_right fun hs => ?_
      rw [Session.sending?_of_proceed? h] at hs
      cases hs
    obtain ⟨hu, hjobs, hborn⟩ := hkeeps m s rfl rfl rfl
    exact sent_deed hn ht (.inl ⟨hgranted, h⟩) hu hjobs hborn
  · split
    · exact .stays rfl
    · next a _ =>
      split
      · exact .stays rfl
      · next s h =>
        have hsending : m.session.line.sending? = some j := by
          refine hwait.resolve_left fun hg => ?_
          rw [Session.granted?_of_settle? h] at hg
          cases hg
        obtain ⟨hu, hjobs, hborn⟩ := hkeeps { m with delivered := none } s rfl rfl rfl
        exact sent_deed hn ht (.inr ⟨hsending, h⟩) hu hjobs hborn

/-! ## Messages on their way to the ship -/

theorem deed_on (hown : m.own j = some t) (silent : t.purpose? = none) (next : Option Task)
    (still : next.bind Task.purpose? = none) (care : next.bind Task.care? = t.care?)
    (talks : next.any Task.talks = true → t.talks = true)
    (eq : m'.books = m.books.next j next) : Deed e j m m' := by
  refine .goesOn next m.session m.pending m.issued m.input (by rw [hown]; exact silent) still
    (by rw [hown]; exact care) (.inl rfl) (.refl e _ _) ?_ eq
  rintro (h | h)
  · rw [hown]
    exact talks h
  · exact absurd rfl h

theorem notify_deed (hj : ∃ t, (j, t) ∈ m.jobs) (silent : (m.own j).bind Task.purpose? = none)
    (free : (m.own j).bind Task.care? = none) {source : Source} {rest : List UInt8}
    (talks : (∃ c, source = .editor c) ∨ rest ≠ m.input → (m.own j).any Task.talks = true)
    (method : String) (params : Option Json) :
    Deed e j m ({ m with input := rest }.notify e j source method params) := by
  rcases notify_books (e := e) (m := { m with input := rest }) hj source method params with
    ⟨id, ticket, s, hs, heq⟩ | ⟨-, heq⟩
  · refine .calls _ _ s _ rest silent free hs rfl (fun h => talks (h.imp_left ?_)) heq
    intro hi
    cases source with
    | caller n => cases hi
    | editor c => exact ⟨c, rfl⟩
  · obtain ⟨hcare, hstill⟩ := care?_sourceNext source method
    exact .goesOn _ m.session m.pending m.issued rest silent hstill (hcare.trans free.symm)
      (.inl rfl) (.refl e _ _) (fun h => talks (h.imp_left editor_of_sourceNext)) heq

/-- A request is sent on someone's behalf, or answered at once. -/
theorem request_deed (hj : ∃ t, (j, t) ∈ m.jobs) (silent : (m.own j).bind Task.purpose? = none)
    (free : (m.own j).bind Task.care? = none) {origin : Origin} {rest : List UInt8}
    (talks : (∃ c id, origin = .editor c id) ∨ rest ≠ m.input → (m.own j).any Task.talks = true)
    (method : String) (params : Option Json) :
    Deed e j m ({ m with input := rest }.request e j origin method params) := by
  obtain ⟨hcare, hstill⟩ := care?_originNext origin
  rcases request_books (e := e) (m := { m with input := rest }) hj origin method params with
    ⟨-, heq⟩ | ⟨-, f, s, hs, hkey, hslot, heq⟩ | ⟨-, heq⟩
  · exact .goesOn _ m.session m.pending m.issued rest silent hstill (hcare.trans free.symm)
      (.inl rfl) (.refl e _ _) (fun h => talks (h.imp_left editor_of_originNext)) heq
  · refine .forwards _ f s _ rest silent free hs rfl hkey hslot (fun h => talks (h.imp_left ?_))
      heq
    intro hi
    cases origin with
    | caller n => cases hi
    | editor c id => exact ⟨c, id, rfl⟩
  · exact .goesOn _ m.session _ _ rest silent hstill (hcare.trans free.symm)
      (.inl rfl) (fades_refused e _ _) (fun h => talks (h.imp_left editor_of_originNext)) heq

theorem stepTurn_deed (hn : m.Numbered) {conversation : Nat} {rest : List UInt8}
    (ht : m.task? j = some (.converse conversation)) (turn : Editor.Turn) :
    Deed e j m ({ m with input := rest }.stepTurn e j conversation turn) := by
  have hown : m.own j = some (.converse conversation) := own_of_task? ht rfl
  have hj : ∃ t, (j, t) ∈ m.jobs := ⟨_, mem_of_task? ht⟩
  have silent : (m.own j).bind Task.purpose? = none := by rw [hown]; rfl
  have free : (m.own j).bind Task.care? = none := by rw [hown]; rfl
  have talks : (m.own j).any Task.talks = true := by rw [hown]; rfl
  have hreads (next : Option Task) (hstill : next.bind Task.purpose? = none)
      (hcare : next.bind Task.care? = none) (m' : Machine)
      (heq : m'.books = ({ m.books with input := rest } : Books).next j next) : Deed e j m m' :=
    .goesOn next m.session m.pending m.issued rest silent hstill (hcare.trans free.symm) (.inl rfl)
      (.refl e _ _) (fun _ => talks) heq
  have hpassed {m' : Machine} (heq : m'.books = { m.books with input := rest }) :
      Deed e j m m' := by
    refine hreads (some (.converse conversation)) rfl rfl m' ?_
    rw [heq, ← hown]
    exact congrArg (fun b : Books => { b with input := rest }) (hn.books_next_own j).symm
  cases turn with
  | request id method params => exact request_deed hj silent free (fun _ => talks) method params
  | notification method params => exact notify_deed hj silent free (fun _ => talks) method params
  | passed => exact hpassed rfl
  | unreadable f =>
    have hsend := books_send { m with input := rest } (.unreadable f)
    simp only [stepTurn]
    split
    · next v hv =>
      rw [hv] at hsend
      exact hpassed hsend
    · next v hv =>
      rw [hv] at hsend
      refine hreads none rfl rfl _ ?_
      rw [books_finish, hsend]
      rfl

theorem stepConverse_deed (hn : m.Numbered) {conversation : Nat}
    (ht : m.task? j = some (.converse conversation)) :
    Deed e j m (m.stepConverse e j conversation) := by
  have hown : m.own j = some (.converse conversation) := own_of_task? ht rfl
  have hfinish (r : Result) : Deed e j m (m.finish j conversation r) :=
    deed_on hown rfl none rfl rfl (fun _ => rfl) (m.books_finish j conversation r none)
  unfold stepConverse
  split
  · exact stepTurn_deed hn ht _
  · exact hfinish _
  · exact hfinish _
  · exact .stays rfl

/-! ## Calls, and the jobs that the books do not tell of -/

theorem forward_deed (hj : ∃ t, (j, t) ∈ m.jobs) (free : m.own j = none) (caller : Nat)
    (method : String) (params : Option Json) :
    Deed e j m (m.stepStart e j caller (.forward method params)) := by
  have hnone {p : Purpose} (hp : p.isInline = false) :
      p.isInline = true ∨ m.input ≠ m.input → (m.own j).any Task.talks = true := by
    rintro (h | h)
    · rw [hp] at h
      cases h
    · exact absurd rfl h
  simp only [stepStart]
  rcases m.forward?_books (e := e) j method params with
    ⟨f, s, u, hf, hs, hkey, hslot, hu, hjobs⟩ | ⟨-, u, hf, hu, -⟩
  · obtain ⟨t, hmem⟩ := hj
    rw [hf]
    dsimp only
    refine .forwards _ f s _ m.input (by rw [free]; rfl) (by rw [free]; rfl) hs rfl hkey hslot
      (hnone (p := .forward caller f) rfl) ?_
    rw [books_become ⟨t, hjobs _ hmem⟩ rfl, hu]
    rfl
  · rw [hf]
    dsimp only
    refine .goesOn none m.session _ _ m.input (by rw [free]; rfl) rfl (by rw [free]) (.inl rfl)
      (fades_refused e _ _) ?_ ?_
    · rintro (h | h)
      · cases h
      · exact absurd rfl h
    · rw [books_finish, hu]
      rfl

theorem stepStart_deed (hn : m.Numbered) {caller : Nat} {c : Call}
    (ht : m.task? j = some (.start caller c)) : Deed e j m (m.stepStart e j caller c) := by
  have hj : ∃ t, (j, t) ∈ m.jobs := ⟨_, mem_of_task? ht⟩
  cases c with
  | poke ship app mark json wait =>
    have free := own_of_unlisted ht rfl
    simp only [stepStart]
    split
    · next h => exact deed_call free hj h rfl rfl
    · exact deed_still hn free (books_finish m j caller _ none)
  | outcome ticket =>
    exact deed_on (own_of_task? ht rfl) rfl (some (.outcome caller ticket)) rfl rfl
      (fun h => absurd h Bool.false_ne_true) (books_become hj rfl)
  | subscribe ship app path =>
    have free := own_of_unlisted ht rfl
    simp only [stepStart]
    split
    · next h => exact deed_call free hj h rfl rfl
    · exact deed_still hn free (books_finish m j caller _ none)
  | unsubscribe subscription =>
    have free := own_of_unlisted ht rfl
    simp only [stepStart]
    split
    · next receipt u h =>
      refine deed_call free hj h ?_ rfl
      obtain ⟨s, hs, -⟩ := call?_books h
      rw [Session.receipt_of_unsubscribe hs]
      rfl
    · exact deed_still hn free (books_finish m j caller _ none)
  | close =>
    have free := own_of_unlisted ht rfl
    have hacts : m.session.close.2 = m.session.act e.reconnect.maxAttempts .close := rfl
    simp only [stepStart]
    split_ifs
    · refine deed_next hn free (.inr ⟨.close, rfl, hacts⟩) (.refl e _ _) ?_
      rw [books_become_unlisted rfl, books_emit]
      rfl
    · refine deed_next hn free (.inr ⟨.close, rfl, hacts⟩) (.refl e _ _) ?_
      exact books_finish { m with session := m.session.close.2 } j caller _ none
  | serve =>
    have free := own_of_unlisted ht rfl
    simp only [stepStart]
    split
    · next h => exact deed_call free hj h rfl rfl
    · refine deed_still hn free ?_
      rw [books_finish, books_spawn_unlisted m rfl]
      rfl
  | notify method params =>
    have free := own_of_unlisted ht rfl
    refine notify_deed hj (by rw [free]; rfl) (by rw [free]; rfl) ?_ method params
    rintro (⟨c, hc⟩ | h)
    · cases hc
    · exact absurd rfl h
  | request method params =>
    have free := own_of_unlisted ht rfl
    refine request_deed hj (by rw [free]; rfl) (by rw [free]; rfl) ?_ method params
    rintro (⟨c, id, hc⟩ | h)
    · cases hc
    · exact absurd rfl h
  | forward method params => exact forward_deed hj (own_of_unlisted ht rfl) caller method params
  | await f =>
    exact deed_on (own_of_task? ht rfl) rfl
      (some (.await (.caller caller) f (m.timer e.settings.requestTimeout).1)) rfl rfl
      (fun h => absurd h Bool.false_ne_true)
      (books_become (m := (m.timer e.settings.requestTimeout).2) hj rfl)
  | converse =>
    exact deed_on (own_of_task? ht rfl) rfl (some (.converse caller)) rfl rfl (fun _ => rfl)
      (books_become hj rfl)

theorem stepFollow_deed (hn : m.Numbered) (free : m.own j = none) (current : Option (Nat × Nat))
    (backoff : Retry.Backoff) : Deed e j m (m.stepTask e j (.follow current backoff)) := by
  have habandon : Deed e j m (m.abandon j) :=
    deed_next hn free (.inl rfl) (fades_failAll e _ _ .subscriptionLost) (books_dismiss _ j)
  cases current with
  | none =>
    simp only [stepTask, stepDetached]
    split_ifs
    · exact habandon
    · split
      · exact habandon
      · split
        · exact deed_still hn free (books_dismiss { m with stuck := true } j)
        · exact deed_still hn free (books_become_unlisted rfl (m.timer _).2 j)
  | some place =>
    obtain ⟨ticket, seen⟩ := place
    simp only [stepTask, stepFollow]
    split
    · next update _ =>
      obtain ⟨p, hp, hfades⟩ := m.route_pending (e := e) update
      refine deed_next hn free (.inl rfl) hfades ?_
      rw [books_become_unlisted rfl, hp]
      rfl
    all_goals exact deed_still hn free (books_become_unlisted rfl m j)

theorem stepStream_deed (hn : m.Numbered) (free : m.own j = none) :
    Deed e j m (m.stepStream e j) := by
  have hact (a : Session.Action) (ha : a.isQuiet = true) {m' : Machine}
      (heq : m'.books = ({ m.books with
        session := m.session.act e.reconnect.maxAttempts a } : Books).next j none) :
      Deed e j m m' := deed_next hn free (.inr ⟨a, ha, rfl⟩) (.refl e _ _) heq
  have hfail : Deed e j m (m.failStream e j) := by
    refine hact .fail rfl ?_
    simp only [failStream, pauseStream]
    split
    · exact books_dismiss _ j
    · split
      · exact books_dismiss _ j
      · exact books_become_unlisted rfl _ j
  have hawaken : Deed e j m (m.awakenStream j) := by
    refine hact .awaken rfl ?_
    simp only [awakenStream]
    split
    · next resume s h =>
      rw [books_become_unlisted rfl, books_emit]
      simp only [Session.act, h]
      rfl
    · next s h =>
      rw [books_dismiss]
      simp only [Session.act, h]
      rfl
  unfold stepStream
  split
  · exact hact .halt rfl (books_dismiss _ j)
  · split
    · exact hawaken
    · exact hawaken
    · split
      · exact .stays rfl
      · exact hfail
      · refine deed_act hn free (a := .opened) rfl rfl ?_
        dsimp only
        split_ifs
        · rw [books_spawn_unlisted _ rfl]
          rfl
        · rfl
    · split
      · next event items _ => exact deed_act hn free (a := .receive event) rfl rfl rfl
      · exact hfail
      · split_ifs
        · exact hfail
        · exact .stays rfl
    · exact deed_still hn free (books_dismiss m j)
    · exact deed_still hn free (books_dismiss m j)

theorem failure?_eq_some {f : Forwarded} {o : Outcome} : m.failure? f = some o ↔
    ∃ fault, (m.session.state.pokes.slot f.ticket).outcome? = some (.error fault) ∧
      o = .error (.session fault) := by
  unfold failure?
  split
  · next fault hfault => simp [hfault, eq_comm]
  · next hnone => simpa using fun fault hfault => absurd hfault (hnone fault)

/-- A verdict is the answer to the request, or else the failure of its poke. -/
theorem answer_or_failure {f : Forwarded} {o : Outcome} (h : m.verdict? e j f = some o) :
    m.pending.slot? f.slot = some o ∨ m.failure? f = some o := by
  unfold verdict? at h
  split_ifs at h
  · exact (Option.or_eq_some_iff.mp h).imp_right And.right
  · exact (Option.or_eq_some_iff.mp h).symm.imp_left And.right

/-- The answer to a request whose poke has not failed leaves no choice. -/
theorem verdict?_of_answer {f : Forwarded} {o : Outcome} (ho : m.pending.slot? f.slot = some o)
    (hpoke : m.failure? f = none) : m.verdict? e j f = some o := by
  rw [verdict?, ho, hpoke, Option.some_or, Option.none_or, ite_self]

/-- Without a verdict the answer has not come. -/
theorem slot?_of_verdict? {f : Forwarded} (h : m.verdict? e j f = none) :
    m.pending.slot? f.slot = none := by
  unfold verdict? at h
  split_ifs at h
  · exact (Option.or_eq_none_iff.mp h).1
  · exact (Option.or_eq_none_iff.mp h).2

theorem await_deed {origin : Origin} {f : Forwarded} {d : Timer}
    (ht : m.task? j = some (.await origin f d)) :
    Deed e j m (m.stepTask e j (.await origin f d)) := by
  have hown := own_of_task? ht rfl
  have htell (v : Machine) (o : Outcome) : (v.tell j origin o).books = v.books.next j none := by
    cases origin with
    | caller n => exact v.books_finish j n _ none
    | editor conversation id =>
      simp only [tell]
      rw [books_dismiss, books_send]
  have hfault (fault : Fault) : Deed e j m (m.conclude j origin f (.error fault)) := by
    refine .forgets (.ofRequest f) f.poke (by rw [hown]; rfl) (by rw [hown]; rfl) rfl ?_
    simp only [conclude]
    rw [htell]
    rfl
  simp only [stepTask]
  split
  · next o ho =>
    cases o with
    | ok v =>
      have hanswer : m.pending.slot? f.slot = some (.ok v) :=
        (answer_or_failure ho).resolve_right fun hfailed => by
          obtain ⟨fault, -, hfault⟩ := failure?_eq_some.mp hfailed
          cases hfault
      exact .concludes origin f d v hown hanswer (htell m (.ok v))
    | error fault => exact hfault fault
  · split_ifs
    · exact hfault _
    · exact .stays rfl

/-- What a step of a job puts down in the books is one of a few things. -/
theorem step_deed (hn : m.Numbered) (j : Nat) : Deed e j m (m.step e j) := by
  unfold step
  cases ht : m.task? j with
  | none => exact .stays rfl
  | some t =>
    have hj : ∃ t, (j, t) ∈ m.jobs := ⟨_, mem_of_task? ht⟩
    dsimp only
    split_ifs with hready
    · cases t with
      | start caller c => exact stepStart_deed hn ht
      | sending p => exact stepSending_deed hn ht hready
      | outcome caller ticket =>
        have hown := own_of_task? ht rfl
        have hsettles (r : Result) : Deed e j m (m.finish j caller r) := by
          refine .settles { ticket } (by rw [hown]; rfl) rfl (by rw [hown]; rfl) hready ?_
          exact m.books_finish j caller r none
        simp only [stepTask]
        split
        · exact hsettles _
        · exact hsettles _
        · exact .stays rfl
      | closing caller =>
        have free := own_of_unlisted ht rfl
        simp only [stepTask]
        split
        · exact deed_still hn free (m.books_finish j caller _ none)
        · exact deed_still hn free (m.books_finish j caller _ none)
        · exact .stays rfl
      | acknowledge =>
        have free := own_of_unlisted ht rfl
        refine .acknowledges (by rw [free]; rfl) (by rw [free]; rfl) ?_
        exact books_become (m := { m with session := m.session.callAcknowledge j }) hj rfl
      | watch id ticket d =>
        have hown := own_of_task? ht rfl
        simp only [stepTask]
        split
        · next a ha =>
          refine .settles (.ofPoke id ticket) (by rw [hown]; rfl) rfl (by rw [hown]; rfl) ?_
            (m.books_dismiss j)
          exact Option.isSome_of_eq_some ha
        · split_ifs
          · refine .forgets (.ofPoke id ticket) id (by rw [hown]; rfl) (by rw [hown]; rfl) rfl ?_
            exact books_dismiss { m with session := (m.session.forget id).2 } j
          · exact .stays rfl
      | redeliver envelope d =>
        have free := own_of_unlisted ht rfl
        simp only [stepTask]
        split
        · next h => exact deed_call free hj h rfl rfl
        · exact deed_still hn free (m.books_dismiss j)
      | await origin f d => exact await_deed ht
      | follow current backoff => exact stepFollow_deed hn (own_of_unlisted ht rfl) current backoff
      | pause backoff d =>
        have free := own_of_unlisted ht rfl
        simp only [stepTask, stepPause]
        split
        · next h => exact deed_call free hj h rfl rfl
        · exact deed_next hn free (.inl rfl) (fades_failAll e _ _ .subscriptionLost)
            (books_dismiss _ j)
      | stream d => exact stepStream_deed hn (own_of_unlisted ht rfl)
      | converse conversation => exact stepConverse_deed hn ht
      | hangUp =>
        exact deed_still hn (own_of_unlisted ht rfl) (books_dismiss { m with outlet := .gone } j)
    · exact .stays rfl

/-! ## What happens outside -/

/-- What happens outside leaves the jobs alone; it may lead the session on, let go of entries, or
bring input. -/
structure Outside (e : Surroundings) (m m' : Machine) : Prop where
  does : m'.books.does = m.books.does
  held : m'.books.held = m.books.held
  acts : m'.session = m.session ∨ ∃ n a, a.isQuiet = true ∧ m'.session = m.session.act n a
  fades : Fades e m.pending m.issued m'.pending m'.issued

theorem after_outside (m : Machine) {h : Happening} (hstep : ∀ j, h ≠ .step j)
    (hcall : ∀ n c, h ≠ .call n c) : Outside e m (m.after e h) := by
  have hquiet {a : Session.Action} (ha : a.isQuiet = true) (n : Nat) {m' : Machine}
      (heq : m'.books = { m.books with session := m.session.act n a }) : Outside e m m' :=
    ⟨by rw [heq], by rw [heq], .inr ⟨n, a, ha, congrArg Books.session heq⟩, by
        rw [show m'.pending = m.pending from congrArg Books.pending heq,
          show m'.issued = m.issued from congrArg Books.issued heq]
        exact .refl e _ _⟩
  cases h with
  | step j => exact absurd rfl (hstep j)
  | call n c => exact absurd rfl (hcall n c)
  | updated json =>
    obtain ⟨p, hp, hfades⟩ := m.route_pending (e := e) json
    refine ⟨by rw [Machine.after, hp], by rw [Machine.after, hp], .inl (congrArg Books.session hp),
      ?_⟩
    rw [show (m.after e (.updated json)).pending = p from congrArg Books.pending hp,
      show (m.after e (.updated json)).issued = m.issued from congrArg Books.issued hp]
    exact hfades
  | connect => exact hquiet (a := .connect) rfl 0 (m.books_withSession _)
  | forget id => exact hquiet (a := .forget id) rfl 0 rfl
  | dropPoke ticket => exact hquiet (a := .dropPoke ticket) rfl 0 rfl
  | dropSubscription ticket => exact hquiet (a := .dropSubscription ticket) rfl 0 rfl
  | _ => exact ⟨rfl, rfl, .inl rfl, .refl e _ _⟩

end Machine

end ShipBridge.Relay
