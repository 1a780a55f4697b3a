import ShipBridge.Proofs.Relay.Turns

/-!
# What is said for a conversation is said in turn

A message that calls for a poke makes the bridge queue one. What a happening puts on its way for a
conversation is the first that has waited, and what it calls for waits behind all that has been
called for before. What other jobs send in between takes its own place in the queue, and moves
nothing of this.
-/

namespace ShipBridge.Relay

open Wire (Command)

def Task.speaks (t : Task) : Bool := t.purpose?.any Purpose.isInline

/-- A body that the bridge reads, with the correlation id and the number of a command that are given
out next. -/
structure Hearing where
  body : List UInt8
  key : String
  id : Nat

/-- What has to be put on its way for a message. -/
def Hearing.command? (e : Surroundings) (x : Hearing) : Option Command :=
  (pokeFor? e x.key (.ofBody x.body)).map fun r => r.command x.id

namespace Machine

variable {e : Surroundings} {m m' : Machine} {i j : Nat} {t : Task}

def speaks (m : Machine) (j : Nat) : Bool := (m.task? j).any Task.speaks

/-- What has been called for on behalf of a conversation and waits for its turn. -/
def queued (m : Machine) : List Command :=
  (m.session.line.queue.filter fun r => m.speaks r.owner).filterMap fun r => r.freight.command?

def batches (m : Machine) : List (List Command) := m.log.filterMap Output.batch?

def putBy (e : Surroundings) (m : Machine) (h : Happening) : List (List Command) :=
  (m.after e h).batches.take ((m.after e h).batches.length - m.batches.length)

/-- The commands that a happening puts on their way for a conversation. -/
def spokenBy (e : Surroundings) (m : Machine) : Happening → List Command
  | .step j =>
    if m.speaks j then
      (m.putBy e (.step j)).flatMap fun batch => batch.filter fun c => c.id?.isSome
    else []
  | _ => []

def hearing? (e : Surroundings) (m : Machine) (h : Happening) : Option Hearing :=
  (m.hears? e h).map fun body => ⟨body, m.nextKey e, m.session.state.nextId⟩

/-- The command that has to be put on its way for what a happening makes the bridge read. -/
def calledBy (e : Surroundings) (m : Machine) (h : Happening) : Option Command :=
  (m.hearing? e h).bind (Hearing.command? e)

/-! ## One step -/

theorem speaks_iff (hn : m.Numbered) : m.speaks j = true ↔
    ∃ p, m.books.does j (.sending p) ∧ p.isInline = true := by
  constructor
  · intro h
    unfold speaks at h
    cases ht : m.task? j with
    | none =>
      rw [ht] at h
      cases h
    | some t =>
      rw [ht, Option.any_some] at h
      cases t with
      | sending p => exact ⟨p, ⟨mem_of_task? ht, rfl⟩, h⟩
      | _ => cases h
  · rintro ⟨p, hd, hp⟩
    rw [speaks, task?_of_own (hn.does_iff.mp hd)]
    exact hp

theorem speaks_congr (hn : m.Numbered) (hn' : m'.Numbered)
    (h : ∀ p, m'.books.does i (.sending p) ↔ m.books.does i (.sending p)) :
    m'.speaks i = m.speaks i := by
  rw [Bool.eq_iff_iff, speaks_iff hn, speaks_iff hn']
  simp only [h]

theorem speaks_of_own (h : m.own j = some t) : m.speaks j = t.speaks := by
  rw [speaks, task?_of_own h, Option.any_some]

theorem speaks_of_next (hn' : m'.Numbered) {b : Books} {next : Option Task}
    (h : m'.books = b.next j next) : m'.speaks j = next.any Task.speaks := by
  rw [Bool.eq_iff_iff, speaks_iff hn', h]
  simp only [Books.next, if_true]
  constructor
  · rintro ⟨p, rfl, hp⟩
    exact hp
  · intro hs
    obtain ⟨t, rfl⟩ : ∃ t, next = some t := Option.isSome_iff_exists.mp (by
      cases next with
      | none => cases hs
      | some t => rfl)
    cases t with
    | sending p => exact ⟨p, rfl, hs⟩
    | _ => cases hs

theorem Deed.speaks_other (hn : m.Numbered) (hn' : m'.Numbered) (h : Deed e j m m')
    (hi : i ≠ j) : m'.speaks i = m.speaks i := by
  refine speaks_congr hn hn' fun p => ⟨fun hp => ?_, (h.others hi).1⟩
  refine ((h.others hi).2 hp).resolve_right ?_
  rintro ⟨hnone, -⟩
  cases hnone

theorem putBy_of_puts {h : Happening} {new : List (List Command)}
    (hputs : (m.after e h).books.puts = new ++ m.books.puts) : m.putBy e h = new := by
  change (m.after e h).books.puts.take ((m.after e h).books.puts.length - m.books.puts.length) = new
  rw [hputs, List.length_append, Nat.add_sub_cancel, List.take_left]

theorem queued_of_silent
    (hlead : m'.session = m.session ∨ ∃ a : Session.Action, a.By m.session j ∧
      m'.session = m.session.act e.reconnect.maxAttempts a)
    (hspeaks : ∀ i, m'.speaks i = m.speaks i) (hsilent : m.speaks j = false) :
    m'.queued = m.queued := by
  have hfilter : m'.session.line.queue.filter (fun r => m.speaks r.owner) =
      m.session.line.queue.filter fun r => m.speaks r.owner := by
    rcases hlead with hs | ⟨a, ha, hs⟩
    · rw [hs]
    · rw [hs, Session.queue_filter_act ha hsilent]
  rw [queued, queued, ← hfilter]
  simp only [hspeaks]

theorem filter_speaks {q : List Session.Errand} (hq : ∀ r ∈ q, r.owner ≠ j)
    (hspeaks : ∀ i, i ≠ j → m'.speaks i = m.speaks i) :
    q.filter (fun r => m'.speaks r.owner) = q.filter fun r => m.speaks r.owner :=
  List.filter_congr fun r hr => hspeaks _ (hq r hr)

/-- A job that puts its batch on the way for a conversation says what has waited longest. -/
theorem spoken_of_puts {p : Purpose} {batch : List Command} {s : Session} (hn : m.Numbered)
    (hl : m.books.Lined j) (hopen : m.session.state.isClosed = false)
    (hn' : (m.step e j).Numbered) (own : m.own j = some (.sending p)) (inline : p.isInline = true)
    (granted : m.session.line.granted? = some j)
    (send : m.session.proceed? = some (.send batch, s))
    (eq : (m.step e j).books = { m.books with session := s, puts := batch :: m.books.puts }) :
    m.spokenBy e (.step j) ++ (m.step e j).queued = m.queued := by
  have hspeaks (i : Nat) : (m.step e j).speaks i = m.speaks i :=
    speaks_congr hn hn' fun p => by rw [eq]
  have hown : m.speaks j = true := (speaks_of_own own).trans inline
  obtain ⟨f, c, hf, hc, hid⟩ := errand_inline hn hl own inline
  obtain ⟨w, hline, -⟩ := Session.granted_of_sole hf granted
  have howner : m.speaks f.owner = true := by
    rw [hline] at granted
    rw [Option.some.inj granted, hown]
  rw [Session.proceed?_of_busy hline hopen (by rw [hc]; rfl), hc] at send
  obtain ⟨hbatch, rfl⟩ := Prod.mk.inj (Option.some.inj send)
  obtain rfl := Session.Move.send.inj hbatch
  have hspoken : m.spokenBy e (.step j) = [c] := by
    have hputs : m.putBy e (.step j) = [m.session.state.cargo (.command c)] :=
      putBy_of_puts (congrArg Books.puts eq)
    rw [spokenBy, if_pos hown, hputs, List.flatMap_singleton, Session.commands_cargo hid]
  have hqueue : m.queued = c :: (w.filter fun r => m.speaks r.owner).filterMap
      fun r => r.freight.command? := by
    rw [queued, hline, Session.Line.queue_granted, List.filter_cons, if_pos howner,
      List.filterMap_cons, hc]
    rfl
  have hqueue' : (m.step e j).queued = (w.filter fun r => m.speaks r.owner).filterMap
      fun r => r.freight.command? := by
    have hw : (m.step e j).session.line.queue = w :=
      congrArg (fun b : Books => b.session.line.queue) eq
    rw [queued, hw]
    simp only [hspeaks]
  rw [hspoken, hqueue, hqueue', List.singleton_append]

theorem Talk.spoken (hn : m.Numbered) (hl : m.books.Lined j)
    (hopen : m.session.state.isClosed = false) (hn' : (m.step e j).Numbered)
    (h : Talk e j m (m.step e j)) :
    m.spokenBy e (.step j) ++ (m.step e j).queued =
      m.queued ++ (m.calledBy e (.step j)).toList := by
  have hd := step_deed (e := e) hn j
  have hothers (i : Nat) (hi : i ≠ j) : (m.step e j).speaks i = m.speaks i :=
    hd.speaks_other hn hn' hi
  have hsilent (hown : m.speaks j = false) (hown' : (m.step e j).speaks j = false)
      (hcalled : m.calledBy e (.step j) = none) : m.spokenBy e (.step j) ++
        (m.step e j).queued = m.queued ++ (m.calledBy e (.step j)).toList := by
    have hspeaks (i : Nat) : (m.step e j).speaks i = m.speaks i := by
      by_cases hi : i = j
      · rw [hi, hown, hown']
      · exact hothers i hi
    rw [hcalled, queued_of_silent hd.leads hspeaks hown]
    simp [spokenBy, hown]
  have hdeaf (hnone : m.hears? e (.step j) = none) : m.calledBy e (.step j) = none := by
    rw [calledBy, hearing?, hnone]
    rfl
  have hsending {p : Purpose} (hown : m.own j = some (.sending p)) :
      m.hears? e (.step j) = none := by
    simp [hears?, task?_of_own hown]
  cases h with
  | waits deaf eq =>
    have hspeaks (i : Nat) : (m.step e j).speaks i = m.speaks i :=
      speaks_congr hn hn' fun p => by rw [eq]
    have hsession : (m.step e j).session = m.session := congrArg Books.session eq
    have hputs : m.putBy e (.step j) = [] :=
      putBy_of_puts (congrArg Books.puts eq)
    rw [hdeaf deaf, queued, queued, hsession, spokenBy, hputs]
    simp [hspeaks]
  | begins c own eq =>
    refine hsilent (speaks_of_own own) (speaks_of_next hn' eq) (hdeaf ?_)
    simp [hears?, task?_of_own own]
  | passes c body rest next own scan poke plain goes eq =>
    refine hsilent (speaks_of_own own) ?_ ?_
    · rw [speaks_of_next hn' eq]
      rcases goes with rfl | ⟨rfl, -⟩ <;> rfl
    · simp [calledBy, hearing?, Hearing.command?, hears?, task?_of_own own, scan, poke]
  | leaves c own finished eq =>
    refine hsilent (speaks_of_own own) (speaks_of_next hn' eq) (hdeaf ?_)
    rcases finished with h | ⟨f, h⟩ <;> simp [hears?, task?_of_own own, h]
  | calls c body rest r receipt s p q issued own scan poke call inline resumed entered eq =>
    have hsession : (m.step e j).session = s := congrArg Books.session eq
    have hown : m.speaks j = false := speaks_of_own own
    have hown' : (m.step e j).speaks j = true := (speaks_of_next hn' eq).trans inline
    have hcalled : m.calledBy e (.step j) = some (r.command m.session.state.nextId) := by
      simp [calledBy, hearing?, Hearing.command?, hears?, task?_of_own own, scan, poke]
    have hfree : m.session.line.errandsOf j = [] := hl.none fun p hp => by
      rw [hn.does_iff.mp hp] at own
      cases own
    rw [hcalled, queued, hsession, Session.queue_call? call, List.filter_append,
      filter_speaks (Session.errandsOf_eq_nil hfree) hothers, List.filter_cons, if_pos hown']
    simp [spokenBy, hown, queued, Session.Freight.command?]
  | puts p batch s own inline granted send eq =>
    rw [spoken_of_puts hn hl hopen hn' own inline granted send eq, hdeaf (hsending own)]
    exact (List.append_nil _).symm
  | ends p a s q held new own inline sending settle plain eq =>
    have hsession : (m.step e j).session = s := congrArg Books.session eq
    obtain ⟨f, -, hf, -⟩ := errand_inline hn hl own inline
    have hputs : m.putBy e (.step j) = [] := putBy_of_puts (by
      change (m.step e j).books.puts = _
      rw [eq]
      rfl)
    rw [hdeaf (hsending own), queued, queued, hsession, Session.queue_settle? settle,
      filter_speaks (Session.sending_of_sole hf sending) hothers]
    simp [spokenBy, hputs]

/-- What a happening puts on its way for a conversation, followed by what waits then, is what has
waited before, followed by what the happening calls for. -/
theorem spoken_after (ho : m.Orderly) (hl : ∀ i, m.books.Lined i)
    (hopen : m.session.state.isClosed = false) (h : Happening) :
    m.spokenBy e h ++ (m.after e h).queued = m.queued ++ (m.calledBy e h).toList := by
  have hn := ho.numbered
  have hn' := (ho.after (e := e) h).numbered
  have hstill (hnone : m.spokenBy e h = [] ∧ m.calledBy e h = none)
      (hline : (m.after e h).session.line = m.session.line)
      (hdoes : ∀ i p, (m.after e h).books.does i (.sending p) ↔ m.books.does i (.sending p)) :
      m.spokenBy e h ++ (m.after e h).queued = m.queued ++ (m.calledBy e h).toList := by
    have hspeaks (i : Nat) : (m.after e h).speaks i = m.speaks i := speaks_congr hn hn' (hdoes i)
    rw [hnone.1, hnone.2, queued, queued, hline]
    simp [hspeaks]
  by_cases hstep : ∃ j, h = .step j
  · obtain ⟨j, rfl⟩ := hstep
    have hn' : (m.step e j).Numbered := hn'
    cases htalks : (m.own j).any Task.talks with
    | true => exact (step_talk hn (hl j) hopen htalks).spoken hn (hl j) hopen hn'
    | false =>
      have hd := step_deed (e := e) hn j
      have hsilent : m.speaks j = false := by
        rw [← Bool.not_eq_true, speaks_iff hn]
        rintro ⟨p, hd, hp⟩
        rw [hn.does_iff.mp hd] at htalks
        exact Bool.noConfusion (hp.symm.trans htalks)
      have hsilent' : (m.step e j).speaks j = false := by
        rw [← Bool.not_eq_true, speaks_iff hn']
        rintro ⟨p, hp, hinline⟩
        exact Bool.noConfusion (hinline.symm.trans ((hd.aside hn htalks).2 _ hp))
      have hspeaks (i : Nat) : (m.step e j).speaks i = m.speaks i := by
        by_cases hi : i = j
        · rw [hi, hsilent, hsilent']
        · exact hd.speaks_other hn hn' hi
      have hqueued : (m.after e (.step j)).queued = m.queued :=
        queued_of_silent hd.leads hspeaks hsilent
      rw [hqueued, calledBy, hearing?, hears?_of_quiet htalks]
      simp [spokenBy, hsilent]
  by_cases hcall : ∃ n c, h = .call n c
  · obtain ⟨n, c, rfl⟩ := hcall
    refine hstill ⟨rfl, rfl⟩ rfl fun i p => ?_
    rw [(books_call m n c).1]
    refine ⟨fun h => h.resolve_right ?_, .inl⟩
    rintro ⟨heq, -⟩
    cases (Prod.mk.inj heq).2
  · have hout := after_outside m (e := e) (fun j hj => hstep ⟨j, hj⟩)
      fun n c hc => hcall ⟨n, c, hc⟩
    refine hstill ?_ ?_ fun i p => by rw [hout.does]
    · cases h with
      | step j => exact absurd ⟨j, rfl⟩ hstep
      | _ => exact ⟨rfl, rfl⟩
    · rcases hout.acts with hs | ⟨n, a, ha, hs⟩
      · rw [hs]
      · rw [hs, Session.act_line_of_quiet ha]

end Machine

end ShipBridge.Relay
