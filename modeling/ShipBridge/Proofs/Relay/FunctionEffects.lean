import ShipBridge.Proofs.Relay.RequestEffects
import ShipBridge.Proofs.Session.Owners

/-!
# What the functions of the bridge do to its books

The books say which jobs send, wait or talk to the editor, what has been handed out to callers and
put on its way to the ship, which requests are entered, and where the session stands. A job that
sends for a poke, or waits for an answer, has something to see to; so has whoever holds on to a poke
or a request that has been handed out. What the functions of the bridge put down in the books is
told one by one.
-/

namespace ShipBridge.Relay

open Session (Answer Receipt)

/-- What a job or a caller has to see to: the answer to a poke, told by its ticket and mostly by
its id too, and maybe the answer to the request that the poke has carried. -/
structure Care where
  ticket : Nat
  poke? : Option Nat := none
  request? : Option Forwarded := none

def Care.ofPoke (id ticket : Nat) : Care := { ticket, poke? := some id }

def Care.ofRequest (f : Forwarded) : Care :=
  { ticket := f.ticket, poke? := some f.poke, request? := some f }

/-- The one care is handed on as the other: the id of the poke may be forgotten. -/
structure Care.Passes (c d : Care) : Prop where
  ticket : d.ticket = c.ticket
  poke : ∀ id, d.poke? = some id → c.poke? = some id
  request : d.request? = c.request?

theorem Care.Passes.refl (c : Care) : c.Passes c := ⟨rfl, fun _ h => h, rfl⟩

theorem Care.passes_ticket (id ticket : Nat) : (Care.ofPoke id ticket).Passes { ticket } :=
  ⟨rfl, nofun, rfl⟩

def Care.ofReceipt? : Receipt → Option Care
  | .poke id ticket => some (.ofPoke id ticket)
  | .subscription .. | .bare _ => none

def Purpose.care? : Purpose → Option Care
  | .poke _ id ticket _ | .notification _ _ _ id ticket | .copy id ticket =>
    some (.ofPoke id ticket)
  | .request _ f | .forward _ f => some (.ofRequest f)
  | _ => none

def Task.purpose? : Task → Option Purpose
  | .sending p => some p
  | _ => none

def Task.care? : Task → Option Care
  | .sending p => p.care?
  | .outcome _ ticket | .start _ (.outcome ticket) => some { ticket }
  | .watch id ticket _ => some (.ofPoke id ticket)
  | .await _ f _ | .start _ (.await f) => some (.ofRequest f)
  | _ => none

def Holding.care? : Holding → Option Care
  | .poke ticket => some { ticket }
  | .request f => some (.ofRequest f)
  | .subscription .. => none

def Task.isListed : Task → Bool
  | .sending _ | .outcome .. | .watch .. | .await .. | .converse _ => true
  | .start _ (.outcome _) | .start _ (.await _) | .start _ .converse => true
  | _ => false

/-- Is something sent for a conversation, which waits until it has been? -/
def Purpose.isInline : Purpose → Bool
  | .notification (.editor _) .. | .request (.editor ..) _ => true
  | _ => false

def Task.talks : Task → Bool
  | .start _ .converse | .converse _ => true
  | .sending p => p.isInline
  | _ => false

/-- What the sender of a notification goes on to. -/
def Source.next (method : String) : Source → Option Task
  | .caller _ => none
  | .editor conversation => if method = exitMethod then none else some (.converse conversation)

/-- What whoever has asked for a request goes on to if it comes to nothing. -/
def Origin.next : Origin → Option Task
  | .caller _ => none
  | .editor conversation _ => some (.converse conversation)

/-- What a conversation goes on to when something has been sent for it, or could not be. -/
def Purpose.resumed : Purpose → Option Task
  | .notification source method .. => source.next method
  | .request origin _ => origin.next
  | _ => none

/-- What is still to be seen to once a sending has ended: all of it if it has succeeded. -/
def Purpose.kept (p : Purpose) : Answer → List Care
  | .ok () => p.care?.toList
  | .error _ => []

/-- What the job that goes on, a new job and whoever holds on to something have to see to. -/
def handed (next : Option Task) (new : Option (Nat × Task)) (held : Option Holding) : List Care :=
  (next.bind Task.care?).toList ++ (new.bind fun r => r.2.care?).toList ++
    (held.bind Holding.care?).toList

def Output.held? : Output → Option Holding
  | .finished _ _ held => held
  | _ => none

def Output.batch? : Output → Option (List Wire.Command)
  | .put batch => some batch
  | _ => none

theorem Pending.mem_of_lookup {p : Pending} {key : String} {k : Nat}
    (h : p.entries.lookup key = some k) : (key, k) ∈ p.entries := by
  obtain ⟨l, r, hsplit, -⟩ := List.lookup_eq_some_iff.mp h
  rw [hsplit]
  simp

/-! ## Answers last -/

/-- What a request has come to is not lost, nor replaced. -/
def Pending.Lasts (p p' : Pending) : Prop := ∀ k o, p.slot? k = some o → p'.slot? k = some o

theorem Pending.slot?_eq_some {p : Pending} {k : Nat} {o : Outcome} :
    p.slot? k = some o ↔ p.slots[k]? = some (some o) := by
  rw [Pending.slot?, Option.join_eq_some_iff]

/-- Answering requests whose slots are empty replaces no answer. -/
theorem Pending.lasts_set {p p' : Pending} {n : Nat} {o : Option Outcome}
    (hopen : p.slots[n]? = some none) (hp : p'.slots = p.slots.set n o) : p.Lasts p' := by
  intro k a hk
  rw [Pending.slot?_eq_some] at hk ⊢
  have hne : n ≠ k := by
    rintro rfl
    rw [hopen] at hk
    cases hk
  rw [hp, List.getElem?_set_ne hne, hk]

theorem Pending.failAll_slot (p : Pending) (f : Fault) {k : Nat}
    (h : ∀ q ∈ p.entries, q.2 ≠ k) : (p.failAll f).slots[k]? = p.slots[k]? := by
  have hfold (es : List (String × Nat)) (hes : ∀ q ∈ es, q.2 ≠ k) (slots : List (Option Outcome)) :
      (es.foldl (fun slots q => slots.set q.2 (some (.error f))) slots)[k]? = slots[k]? := by
    induction es generalizing slots with
    | nil => rfl
    | cons q es ih =>
      rw [List.foldl_cons, ih fun r hr => hes r (List.mem_cons_of_mem q hr),
        List.getElem?_set_ne (hes q List.mem_cons_self)]
  exact hfold p.entries h p.slots

theorem Pending.failAll_slot?_of_mem (p : Pending) (f : Fault) {key : String} {k : Nat}
    (h : (key, k) ∈ p.entries) (hk : k < p.slots.length) :
    (p.failAll f).slot? k = some (.error f) := by
  have hfold (es : List (String × Nat)) (slots : List (Option Outcome)) (hk : k < slots.length)
      (h : slots[k]? = some (some (.error f)) ∨ (key, k) ∈ es) :
      (es.foldl (fun slots q => slots.set q.2 (some (.error f))) slots)[k]? =
        some (some (.error f)) := by
    induction es generalizing slots with
    | nil => exact h.resolve_right List.not_mem_nil
    | cons q es ih =>
      have hlength : k < (slots.set q.2 (some (.error f))).length := by rwa [List.length_set]
      refine ih (slots.set q.2 (some (.error f))) hlength ?_
      by_cases hq : q.2 = k
      · rw [hq, List.getElem?_set_self hk]
        exact .inl rfl
      · rw [List.getElem?_set_ne hq]
        refine h.imp_right fun hmem => (List.mem_cons.mp hmem).resolve_left ?_
        rintro rfl
        exact hq rfl
  rw [Pending.slot?_eq_some]
  exact hfold p.entries p.slots hk (.inr h)

theorem Pending.lasts_enter (p : Pending) (key : String) : p.Lasts (p.enter key).2 := by
  intro k o hk
  rw [Pending.slot?_eq_some] at hk ⊢
  rw [Pending.enter, List.getElem?_append_left (List.getElem?_eq_some_iff.mp hk).1, hk]

/-! ## The books -/

structure Books where
  does : Nat → Task → Prop
  session : Session
  pending : Pending
  issued : Nat
  held : List Holding
  puts : List (List Wire.Command)
  input : List UInt8
  inputEnded : Bool

def Books.next (b : Books) (j : Nat) (t? : Option Task) : Books :=
  { b with does := fun i u => if i = j then t? = some u else b.does i u }

def Books.also (b : Books) (new : Option (Nat × Task)) : Books :=
  { b with does := fun i u => b.does i u ∨ new = some (i, u) }

namespace Machine

variable {e : Surroundings} {m m' u : Machine} {j i : Nat} {t : Task}

def books (m : Machine) : Books where
  does i t := (i, t) ∈ m.jobs ∧ t.isListed = true
  session := m.session
  pending := m.pending
  issued := m.issued
  held := m.log.filterMap Output.held?
  puts := m.log.filterMap Output.batch?
  input := m.input
  inputEnded := m.inputEnded

/-! ## The books and the bookkeeping functions -/

@[simp] theorem books_emit (m : Machine) (o : Output) : (m.emit o).books =
    { m.books with
      held := o.held?.toList ++ m.books.held, puts := o.batch?.toList ++ m.books.puts } := by
  simp only [books, emit, List.filterMap_cons]
  cases o <;> first | rfl | (rename_i held; cases held <;> rfl)

@[simp] theorem books_dismiss (m : Machine) (j : Nat) :
    (m.dismiss j).books = m.books.next j none := by
  simp only [books, Books.next, Books.mk.injEq]
  refine ⟨?_, rfl, rfl, rfl, rfl, rfl, rfl, rfl⟩
  funext i t
  rw [mem_dismiss]
  by_cases hi : i = j <;> simp [hi]

theorem books_become (hj : ∃ u, (j, u) ∈ m.jobs) (ht : t.isListed = true) :
    (m.become j t).books = m.books.next j (some t) := by
  simp only [books, Books.next, Books.mk.injEq]
  refine ⟨?_, rfl, rfl, rfl, rfl, rfl, rfl, rfl⟩
  funext i u
  rw [mem_become]
  by_cases hi : i = j
  · subst hi
    simp only [ne_eq, not_true_eq_false, and_false, false_or, if_true, hj, and_true,
      Prod.mk.injEq, true_and, eq_iff_iff, Option.some.injEq]
    exact ⟨fun h => h.1.symm, fun h => h ▸ ⟨rfl, ht⟩⟩
  · simp [hi]

theorem books_become_unlisted (ht : t.isListed = false) (m : Machine) (j : Nat) :
    (m.become j t).books = m.books.next j none := by
  simp only [books, Books.next, Books.mk.injEq]
  refine ⟨?_, rfl, rfl, rfl, rfl, rfl, rfl, rfl⟩
  funext i u
  rw [mem_become]
  by_cases hi : i = j
  · subst hi
    simp only [ne_eq, not_true_eq_false, and_false, false_or, if_true, Prod.mk.injEq, true_and,
      eq_iff_iff, reduceCtorEq, iff_false]
    rintro ⟨⟨rfl, -⟩, hu⟩
    rw [ht] at hu
    cases hu
  · simp [hi]

theorem books_spawn (m : Machine) (ht : t.isListed = true) :
    (m.spawn t).books = m.books.also (some (m.born, t)) := by
  simp only [books, Books.also, Books.mk.injEq]
  refine ⟨?_, rfl, rfl, rfl, rfl, rfl, rfl, rfl⟩
  funext i u
  rw [mem_spawn, Option.some.injEq, eq_iff_iff]
  constructor
  · rintro ⟨h | h, hu⟩
    · exact .inl ⟨h, hu⟩
    · exact .inr h.symm
  · rintro (⟨h, hu⟩ | h)
    · exact ⟨.inl h, hu⟩
    · obtain ⟨-, rfl⟩ := Prod.mk.inj h
      exact ⟨.inr h.symm, ht⟩

theorem books_spawn_unlisted (m : Machine) (ht : t.isListed = false) :
    (m.spawn t).books = m.books := by
  simp only [books, Books.mk.injEq]
  refine ⟨?_, rfl, rfl, rfl, rfl, rfl, rfl, rfl⟩
  funext i u
  rw [mem_spawn, eq_iff_iff]
  constructor
  · rintro ⟨h | h, hu⟩
    · exact ⟨h, hu⟩
    · obtain ⟨-, rfl⟩ := Prod.mk.inj h
      rw [ht] at hu
      cases hu
  · rintro ⟨h, hu⟩
    exact ⟨.inl h, hu⟩

@[simp] theorem books_finish (m : Machine) (j caller : Nat) (r : Result)
    (held : Option Holding) : (m.finish j caller r held).books =
      ({ m.books with held := held.toList ++ m.books.held } : Books).next j none := by
  rw [finish, books_dismiss, books_emit]
  rfl

@[simp] theorem books_withSession (m : Machine) (s : Session) :
    (m.withSession s).books = { m.books with session := s } := by
  simp only [withSession]
  split_ifs
  · exact books_spawn_unlisted _ rfl
  · rfl

@[simp] theorem books_send (m : Machine) (message : Editor.Message) :
    (m.send message).2.books = m.books := by
  unfold send
  split
  · exact books_emit m _
  · exact books_spawn_unlisted _ rfl
  · rfl
  · rfl

@[simp] theorem books_afterNotification (m : Machine) (method : String) (envelope : Json) :
    (m.afterNotification e method envelope).books = m.books := by
  unfold afterNotification
  split_ifs
  · exact books_spawn_unlisted _ rfl
  · rfl

/-! ## The pending requests -/

/-- An entry stands under the id that was given out with its slot, and its slot is empty. -/
structure Ledger (e : Surroundings) (p : Pending) (issued : Nat) : Prop where
  length : p.slots.length = issued
  entry : ∀ key k, (key, k) ∈ p.entries → key = e.correlate (k + 1) ∧ p.slots[k]? = some none

/-- Entries may go, but none is made. -/
structure Fades (e : Surroundings) (p : Pending) (issued : Nat) (p' : Pending)
    (issued' : Nat) : Prop where
  entries : ∀ q ∈ p'.entries, q ∈ p.entries
  ledger : Ledger e p issued → Ledger e p' issued'
  lasts : Ledger e p issued → p.Lasts p'
  issued : issued ≤ issued'

theorem Fades.refl (e : Surroundings) (p : Pending) (issued : Nat) : Fades e p issued p issued :=
  ⟨fun _ hq => hq, id, fun _ _ _ hk => hk, Nat.le_refl _⟩

theorem fades_erase (e : Surroundings) (p : Pending) (issued : Nat) (key : String) :
    Fades e p issued (p.erase key) issued where
  entries _ hq := List.mem_of_mem_filter hq
  ledger h := ⟨h.length, fun key k hk => h.entry key k (List.mem_of_mem_filter hk)⟩
  issued := Nat.le_refl _
  lasts _ _ _ hk := hk

theorem fades_failAll (e : Surroundings) (p : Pending) (issued : Nat) (f : Fault) :
    Fades e p issued (p.failAll f) issued where
  entries _ hq := by cases hq
  ledger h := ⟨(p.length_failAll f).trans h.length, fun _ _ hk => by cases hk⟩
  issued := Nat.le_refl _
  lasts h k o hk := by
    rw [Pending.slot?_eq_some] at hk ⊢
    have hne : ∀ q ∈ p.entries, q.2 ≠ k := by
      rintro q hq rfl
      rw [(h.entry q.1 q.2 hq).2] at hk
      cases hk
    rw [p.failAll_slot f hne, hk]

theorem fades_resolve (e : Surroundings) (p : Pending) (issued : Nat) (key : String)
    (o : Outcome) : Fades e p issued (p.resolve key o) issued := by
  unfold Pending.resolve
  cases hn : p.entries.lookup key with
  | none => exact .refl e p issued
  | some n =>
    have hopen (h : Ledger e p issued) : p.slots[n]? = some none :=
      (h.entry key n (Pending.mem_of_lookup hn)).2
    refine ⟨fun _ hq => List.mem_of_mem_filter hq, fun h => ⟨?_, ?_⟩,
      fun h => Pending.lasts_set (hopen h) rfl, Nat.le_refl _⟩
    · exact List.length_set.trans h.length
    · intro key' k hk
      obtain ⟨hmem, hne⟩ := List.mem_filter.mp hk
      obtain ⟨hkey', hopen⟩ := h.entry key' k hmem
      have hkey := (h.entry key n (Pending.mem_of_lookup hn)).1
      have hkn : n ≠ k := by
        rintro rfl
        rw [hkey', hkey] at hne
        simp at hne
      refine ⟨hkey', ?_⟩
      dsimp only
      rw [List.getElem?_set_ne hkn]
      exact hopen

theorem ledger_enter {p : Pending} {issued : Nat} (h : Ledger e p issued) :
    Ledger e (p.enter (e.correlate (issued + 1))).2 (issued + 1) where
  length := by simp [Pending.enter, h.length]
  entry key k hk := by
    rcases List.mem_cons.mp hk with heq | hold
    · obtain ⟨rfl, rfl⟩ := Prod.mk.inj heq
      refine ⟨by rw [h.length], ?_⟩
      simp [Pending.enter]
    · obtain ⟨hkey, hopen⟩ := h.entry key k (List.mem_of_mem_filter hold)
      refine ⟨hkey, ?_⟩
      have hlt : k < p.slots.length := (List.getElem?_eq_some_iff.mp hopen).1
      simp only [Pending.enter]
      rw [List.getElem?_append_left hlt]
      exact hopen

/-- A request that is entered and taken out again leaves an empty slot behind. -/
theorem fades_refused (e : Surroundings) (p : Pending) (issued : Nat) :
    Fades e p issued ((p.enter (e.correlate (issued + 1))).2.erase (e.correlate (issued + 1)))
      (issued + 1) where
  entries q hq := by
    obtain ⟨hmem, hne⟩ := List.mem_filter.mp hq
    rcases List.mem_cons.mp hmem with rfl | hold
    · simp at hne
    · exact List.mem_of_mem_filter hold
  ledger h := (fades_erase e _ _ _).ledger (ledger_enter h)
  issued := Nat.le_succ _
  lasts _ := p.lasts_enter (e.correlate (issued + 1))

theorem route_pending (m : Machine) (update : Json) : ∃ p,
    (m.route update).books = { m.books with pending := p } ∧
      Fades e m.pending m.issued p m.issued := by
  unfold route
  split
  · next key o _ => exact ⟨_, rfl, fades_resolve e _ _ key o⟩
  · exact ⟨m.pending, m.books_send _, .refl e _ _⟩
  · exact ⟨m.pending, rfl, .refl e _ _⟩

/-! ## What a job does -/

def own (m : Machine) (j : Nat) : Option Task := (m.task? j).filter Task.isListed

theorem Numbered.task?_of_mem (hn : m.Numbered) (h : (j, t) ∈ m.jobs) : m.task? j = some t :=
  Session.lookup_of_mem hn.distinct h

theorem own_of_task? (ht : m.task? j = some t) (hlisted : t.isListed = true) :
    m.own j = some t := by
  rw [own, ht, Option.filter_some, if_pos hlisted]

theorem own_of_unlisted (ht : m.task? j = some t) (hlisted : t.isListed = false) :
    m.own j = none := by
  rw [own, ht, Option.filter_some, hlisted]
  rfl

theorem Numbered.does_iff (hn : m.Numbered) : m.books.does j t ↔ m.own j = some t := by
  constructor
  · rintro ⟨hmem, hlisted⟩
    exact own_of_task? (hn.task?_of_mem hmem) hlisted
  · intro h
    obtain ⟨ht, hlisted⟩ := Option.filter_eq_some_iff.mp h
    exact ⟨mem_of_task? ht, hlisted⟩

theorem Numbered.books_next_own (hn : m.Numbered) (j : Nat) :
    m.books.next j (m.own j) = m.books := by
  simp only [Books.next, books, Books.mk.injEq, and_true]
  funext i u
  by_cases hi : i = j
  · subst hi
    rw [if_pos rfl]
    exact propext hn.does_iff.symm
  · rw [if_neg hi]

theorem idle_books (hn : m.Numbered) (free : m.own j = none) (s : Session) (p : Pending) :
    ({ m.books with session := s, pending := p } : Books).next j none =
      { m.books with session := s, pending := p } := by
  have hnext := hn.books_next_own j
  rw [free] at hnext
  calc ({ m.books with session := s, pending := p } : Books).next j none
      = { m.books.next j none with session := s, pending := p } := rfl
    _ = { m.books with session := s, pending := p } := by rw [hnext]

/-! ## Calls of a job -/

theorem isClosed_of_call? {r : Session.Request} (h : m.session.call? j r = none) :
    m.session.state.isClosed = true := by
  cases hc : m.session.state.isClosed with
  | true => rfl
  | false => cases r <;> simp [Session.call?, Session.State.register?, hc] at h

theorem call?_eq_none {r : Session.Request} (h : m.call? j r = none) :
    m.session.call? j r = none := Option.map_eq_none_iff.mp h

theorem call?_books {r : Session.Request} {receipt : Receipt}
    (h : m.call? j r = some (receipt, u)) : ∃ s, m.session.call? j r = some (receipt, s) ∧
      u.books = { m.books with session := s } := by
  obtain ⟨⟨receipt', s⟩, hs, heq⟩ := Option.map_eq_some_iff.mp h
  obtain ⟨rfl, rfl⟩ := Prod.mk.inj heq
  exact ⟨s, hs, m.books_withSession s⟩

/-- A poke that is called for is given an id and a ticket, unless the session is closed. -/
theorem call?_poke (m : Machine) (j : Nat) (mark : String) (json : Json) :
    (∃ id ticket u, m.call? j (pokeRequest e mark json) = some (.poke id ticket, u)) ∨
      m.call? j (pokeRequest e mark json) = none := by
  cases h : m.call? j (pokeRequest e mark json) with
  | none => exact .inr rfl
  | some p =>
    obtain ⟨receipt, u⟩ := p
    obtain ⟨s, hs, -⟩ := call?_books h
    rcases Session.call?_pokes hs with ⟨_, _, _, _, -, rfl, -⟩ | ⟨hne, -⟩
    · exact .inl ⟨_, _, u, rfl⟩
    · have hc := (Session.call?_eq_some (n := 0) hs).2.1
      simp only [pokeRequest, Session.call?, Session.State.register?, hc, Bool.false_eq_true,
        if_false] at hs
      exact absurd (Prod.mk.inj (Option.some.inj hs)).1.symm (hne _ _)

theorem resume_books (hj : ∃ t, (j, t) ∈ m.jobs) (source : Source) (method : String) :
    (m.resume j source method).books = m.books.next j (Source.next method source) := by
  cases source with
  | caller n => exact m.books_finish j n _ none
  | editor conversation =>
    simp only [resume, Source.next]
    split_ifs
    · exact m.books_finish j conversation _ none
    · exact books_become hj rfl

theorem mem_jobs_send {p : Nat × Task} (h : p ∈ m.jobs) (message : Editor.Message) :
    p ∈ (m.send message).2.jobs := by
  unfold send
  split
  · exact h
  · exact List.mem_append_left _ h
  · exact h
  · exact h

theorem mem_jobs_afterNotification {p : Nat × Task} (h : p ∈ m.jobs) (method : String)
    (envelope : Json) : p ∈ (m.afterNotification e method envelope).jobs := by
  unfold afterNotification
  split_ifs
  · exact List.mem_append_left _ h
  · exact h

theorem refuse_books (hj : ∃ t, (j, t) ∈ m.jobs) (origin : Origin) (f : Fault) :
    (m.refuse j origin f).books = m.books.next j (Origin.next origin) := by
  cases origin with
  | caller n => exact m.books_finish j n _ none
  | editor conversation id =>
    obtain ⟨t, ht⟩ := hj
    rw [refuse, books_become ⟨t, mem_jobs_send ht _⟩ rfl, books_send]
    rfl

theorem notify_books (hj : ∃ t, (j, t) ∈ m.jobs) (source : Source) (method : String)
    (params : Option Json) :
    (∃ id ticket s, m.session.call? j
        (pokeRequest e notificationMark (envelope none method params)) =
          some (.poke id ticket, s) ∧
      (m.notify e j source method params).books = ({ m.books with session := s } : Books).next j
        (some (.sending (.notification source method (envelope none method params) id ticket)))) ∨
    (m.session.state.isClosed = true ∧ (m.notify e j source method params).books =
      m.books.next j (Source.next method source)) := by
  obtain ⟨t, ht⟩ := hj
  simp only [notify]
  rcases call?_poke (e := e) m j notificationMark (envelope none method params) with
    ⟨id, ticket, u, h⟩ | h
  · obtain ⟨s, hs, hu⟩ := call?_books h
    refine .inl ⟨id, ticket, s, hs, ?_⟩
    rw [h]
    dsimp only
    rw [books_become ⟨t, (call?_keeps h).2 _ ht⟩ rfl, hu]
  · refine .inr ⟨isClosed_of_call? (call?_eq_none h), ?_⟩
    rw [h]
    dsimp only
    rw [resume_books ⟨t, mem_jobs_afterNotification ht _ _⟩, books_afterNotification]

theorem forward?_books (j : Nat) (method : String) (params : Option Json) (m : Machine) :
    (∃ f s u, m.forward? e j method params = (some f, u) ∧
      m.session.call? j (pokeRequest e requestMark
        (envelope (some (e.correlate (m.issued + 1))) method params)) =
          some (.poke f.poke f.ticket, s) ∧
      f.correlation = e.correlate (m.issued + 1) ∧ f.slot = m.pending.slots.length ∧
      u.books = { m.books with
        session := s, pending := (m.pending.enter f.correlation).2, issued := m.issued + 1 } ∧
      ∀ p ∈ m.jobs, p ∈ u.jobs) ∨
    (m.session.state.isClosed = true ∧ ∃ u, m.forward? e j method params = (none, u) ∧
      u.books = { m.books with
        pending := (m.pending.enter (e.correlate (m.issued + 1))).2.erase
          (e.correlate (m.issued + 1))
        issued := m.issued + 1 } ∧
      ∀ p ∈ m.jobs, p ∈ u.jobs) := by
  simp only [forward?]
  rcases call?_poke (e := e)
    { m with
      pending := (m.pending.enter (e.correlate (m.issued + 1))).2, issued := m.issued + 1 } j
    requestMark (envelope (some (e.correlate (m.issued + 1))) method params) with
    ⟨id, ticket, u, h⟩ | h
  · obtain ⟨s, hs, hu⟩ := call?_books h
    refine .inl ⟨⟨_, method, m.pending.slots.length, id, ticket⟩, s, u, ?_, hs, rfl, rfl, hu,
      (call?_keeps h).2⟩
    rw [h]
    rfl
  · have hnone := call?_eq_none h
    refine .inr ⟨isClosed_of_call? (m := m) hnone, { m with
      pending := (m.pending.enter (e.correlate (m.issued + 1))).2.erase
        (e.correlate (m.issued + 1))
      issued := m.issued + 1 }, ?_, rfl, fun p hp => hp⟩
    rw [h]

theorem request_books (hj : ∃ t, (j, t) ∈ m.jobs) (origin : Origin) (method : String)
    (params : Option Json) :
    (method = handshakeMethod ∧ (m.request e j origin method params).books =
      m.books.next j (Origin.next origin)) ∨
    (method ≠ handshakeMethod ∧ ∃ f s, m.session.call? j (pokeRequest e requestMark
        (envelope (some (e.correlate (m.issued + 1))) method params)) =
          some (.poke f.poke f.ticket, s) ∧
      f.correlation = e.correlate (m.issued + 1) ∧ f.slot = m.pending.slots.length ∧
      (m.request e j origin method params).books = ({ m.books with
        session := s, pending := (m.pending.enter f.correlation).2
        issued := m.issued + 1 } : Books).next j (some (.sending (.request origin f)))) ∨
    (m.session.state.isClosed = true ∧ (m.request e j origin method params).books =
      ({ m.books with
        pending := (m.pending.enter (e.correlate (m.issued + 1))).2.erase
          (e.correlate (m.issued + 1))
        issued := m.issued + 1 } : Books).next j (Origin.next origin)) := by
  unfold request
  split_ifs with hmethod
  · refine .inl ⟨hmethod, ?_⟩
    cases origin with
    | caller n => exact m.books_finish j n _ none
    | editor conversation id =>
      obtain ⟨t, ht⟩ := hj
      dsimp only
      rw [books_become ⟨t, mem_jobs_send ht _⟩ rfl, books_send]
      rfl
  · obtain ⟨t, ht⟩ := hj
    rcases m.forward?_books (e := e) j method params with
      ⟨f, s, u, hf, hs, hkey, hslot, hu, hjobs⟩ | ⟨hclosed, u, hf, hu, hjobs⟩
    · refine .inr (.inl ⟨hmethod, f, s, hs, hkey, hslot, ?_⟩)
      rw [hf]
      dsimp only
      rw [books_become ⟨t, hjobs _ ht⟩ rfl, hu]
    · refine .inr (.inr ⟨hclosed, ?_⟩)
      rw [hf]
      dsimp only
      rw [refuse_books ⟨t, hjobs _ ht⟩, hu]

/-! ## The end of a sending -/

theorem care?_sourceNext (source : Source) (method : String) :
    (Source.next method source).bind Task.care? = none ∧
      (Source.next method source).bind Task.purpose? = none := by
  cases source with
  | caller n => exact ⟨rfl, rfl⟩
  | editor conversation =>
    simp only [Source.next]
    split_ifs <;> exact ⟨rfl, rfl⟩

theorem care?_originNext (origin : Origin) : (Origin.next origin).bind Task.care? = none ∧
    (Origin.next origin).bind Task.purpose? = none := by
  cases origin <;> exact ⟨rfl, rfl⟩

theorem editor_of_sourceNext {source : Source} {method : String}
    (h : (Source.next method source).any Task.talks = true) : ∃ c, source = .editor c := by
  cases source with
  | caller n => cases h
  | editor conversation => exact ⟨conversation, rfl⟩

theorem editor_of_originNext {origin : Origin} (h : (Origin.next origin).any Task.talks = true) :
    ∃ c id, origin = .editor c id := by
  cases origin with
  | caller n => cases h
  | editor conversation id => exact ⟨conversation, id, rfl⟩

/-- What was sent for has failed: nothing is left to see to, and a request is taken out again. -/
theorem sent_error_books (hj : ∃ t, (j, t) ∈ m.jobs) (p : Purpose) (f : Session.Fault) :
    ∃ next q, (m.sent e j p (.error f)).books =
        ({ m.books with pending := q } : Books).next j next ∧
      next.bind Task.care? = none ∧ next.bind Task.purpose? = none ∧
      (next.any Task.talks = true → p.isInline = true) ∧
      (p.isInline = true → next = p.resumed) ∧
      Fades e m.pending m.issued q m.issued ∧
      ∀ c g, p.care? = some c → c.request? = some g → q = m.pending.erase g.correlation := by
  have hfalse {P : Prop} (h : false = true) : P := absurd h Bool.false_ne_true
  have hnone {P : Care → Forwarded → Prop} (c : Care) (g : Forwarded)
      (h : (none : Option Care) = some c) (_ : c.request? = some g) : P c g := by cases h
  cases p with
  | poke caller id ticket wait =>
    refine ⟨none, m.pending, m.books_finish j caller _ none, rfl, rfl, hfalse, hfalse, .refl e _ _,
      ?_⟩
    rintro c g hc hg
    rw [← Option.some.inj hc] at hg
    cases hg
  | subscribe caller id ticket =>
    exact ⟨none, m.pending, m.books_finish j caller _ none, rfl, rfl, hfalse, hfalse, .refl e _ _,
      hnone⟩
  | unsubscribe caller =>
    exact ⟨none, m.pending, m.books_finish j caller _ none, rfl, rfl, hfalse, hfalse, .refl e _ _,
      hnone⟩
  | acknowledge =>
    exact ⟨none, m.pending, m.books_dismiss j, rfl, rfl, hfalse, hfalse, .refl e _ _, hnone⟩
  | serve caller ticket =>
    refine ⟨none, m.pending, ?_, rfl, rfl, hfalse, hfalse, .refl e _ _, hnone⟩
    simp only [sent]
    rw [books_finish, books_spawn_unlisted m rfl]
    rfl
  | resubscribe ticket backoff =>
    cases f with
    | closed =>
      exact ⟨none, _, books_dismiss _ j, rfl, rfl, hfalse, hfalse,
        fades_failAll e _ _ .subscriptionLost, hnone⟩
    | _ =>
      exact ⟨none, m.pending, books_become_unlisted rfl m j, rfl, rfl, hfalse, hfalse, .refl e _ _,
        hnone⟩
  | notification source method envelope id ticket =>
    obtain ⟨hcare, hstill⟩ := care?_sourceNext source method
    refine ⟨Source.next method source, m.pending, ?_, hcare, hstill, ?_, fun _ => rfl,
      .refl e _ _, ?_⟩
    · obtain ⟨t, ht⟩ := hj
      simp only [sent]
      rw [resume_books ⟨t, mem_jobs_afterNotification ht _ _⟩, books_afterNotification]
      rfl
    · intro h
      obtain ⟨c, rfl⟩ := editor_of_sourceNext h
      rfl
    · rintro c g hc hg
      rw [← Option.some.inj hc] at hg
      cases hg
  | copy id ticket =>
    refine ⟨none, m.pending, m.books_dismiss j, rfl, rfl, hfalse, hfalse, .refl e _ _,
      ?_⟩
    rintro c g hc hg
    rw [← Option.some.inj hc] at hg
    cases hg
  | request origin f =>
    obtain ⟨hcare, hstill⟩ := care?_originNext origin
    refine ⟨Origin.next origin, m.pending.erase f.correlation, ?_, hcare, hstill, ?_,
      fun _ => rfl, fades_erase e _ _ _, ?_⟩
    · exact refuse_books (m := { m with pending := m.pending.erase f.correlation }) hj origin _
    · intro h
      obtain ⟨c, id, rfl⟩ := editor_of_originNext h
      rfl
    · rintro c g hc hg
      rw [← Option.some.inj hc] at hg
      rw [← Option.some.inj hg]
  | forward caller f =>
    refine ⟨none, m.pending.erase f.correlation,
      books_finish { m with pending := m.pending.erase f.correlation } j caller _ none, rfl, rfl,
      hfalse, hfalse, fades_erase e _ _ _, ?_⟩
    rintro c g hc hg
    rw [← Option.some.inj hc] at hg
    rw [← Option.some.inj hg]

theorem next_also {b : Books} {k : Nat} (hk : k ≠ j) {next : Option Task} :
    (b.also (some (k, t))).next j next = (b.next j next).also (some (k, t)) := by
  simp only [Books.also, Books.next, Books.mk.injEq, and_true]
  funext i v
  by_cases hi : i = j
  · subst hi
    simp [hk]
  · simp [hi]

/-- What was sent for has been sent: the job, a new job or the caller sees to what is left. -/
theorem sent_ok_books (hj : ∃ t, (j, t) ∈ m.jobs) (hlt : j < m.born) (p : Purpose) :
    ∃ next new held, (m.sent e j p (.ok ())).books =
        (({ m.books with held := held.toList ++ m.books.held } : Books).next j next).also new ∧
      next.bind Task.purpose? = none ∧
      (∀ r, new = some r → r.2.purpose? = none ∧ r.2.talks = false) ∧
      List.Forall₂ Care.Passes p.care?.toList (handed next new held) ∧
      (next.any Task.talks = true → p.isInline = true) ∧
      (p.isInline = true → next = p.resumed) := by
  have hfalse {P : Prop} (h : false = true) : P := absurd h Bool.false_ne_true
  have hnone {P : Nat × Task → Prop} (r : Nat × Task) (h : none = some r) : P r := by cases h
  have halso (b : Books) : b.also none = b := by simp [Books.also]
  cases p with
  | poke caller id ticket wait =>
    cases wait with
    | true =>
      refine ⟨some (.outcome caller ticket), none, none, ?_, rfl, hnone,
        .cons (Care.passes_ticket id ticket) .nil, hfalse, hfalse⟩
      rw [halso]
      exact books_become hj rfl
    | false =>
      refine ⟨none, none, some (.poke ticket), ?_, rfl, hnone,
        .cons (Care.passes_ticket id ticket) .nil, hfalse, hfalse⟩
      rw [halso]
      exact m.books_finish j caller _ _
  | subscribe caller id ticket =>
    refine ⟨none, none, some (.subscription id ticket), ?_, rfl, hnone, .nil, hfalse, hfalse⟩
    rw [halso]
    exact m.books_finish j caller _ _
  | unsubscribe caller =>
    refine ⟨none, none, none, ?_, rfl, hnone, .nil, hfalse, hfalse⟩
    rw [halso]
    exact m.books_finish j caller _ none
  | acknowledge =>
    refine ⟨none, none, none, ?_, rfl, hnone, .nil, hfalse, hfalse⟩
    rw [halso]
    exact m.books_dismiss j
  | serve caller ticket =>
    refine ⟨none, none, none, ?_, rfl, hnone, .nil, hfalse, hfalse⟩
    rw [halso]
    simp only [sent]
    rw [books_finish, books_spawn_unlisted m rfl]
  | resubscribe ticket backoff =>
    refine ⟨none, none, none, ?_, rfl, hnone, .nil, hfalse, hfalse⟩
    rw [halso]
    exact books_become_unlisted rfl m j
  | notification source method envelope id ticket =>
    refine ⟨Source.next method source,
      some (m.born, .watch id ticket (m.timer e.settings.requestTimeout).1), none, ?_,
      (care?_sourceNext source method).2, ?_, ?_, ?_, fun _ => rfl⟩
    · obtain ⟨t, ht⟩ := hj
      have hspawned : (j, t) ∈ (m.spawnWatch e id ticket).jobs := List.mem_append_left _ ht
      simp only [sent]
      rw [resume_books ⟨t, mem_jobs_afterNotification hspawned _ _⟩, books_afterNotification,
        spawnWatch, books_spawn _ rfl]
      exact next_also (Nat.ne_of_gt hlt)
    · rintro r hr
      rw [← Option.some.inj hr]
      exact ⟨rfl, rfl⟩
    · rw [handed, (care?_sourceNext source method).1]
      exact .cons (Care.Passes.refl _) .nil
    · intro h
      obtain ⟨c, rfl⟩ := editor_of_sourceNext h
      rfl
  | copy id ticket =>
    refine ⟨some (.watch id ticket (m.timer e.settings.requestTimeout).1), none, none, ?_, rfl,
      hnone, .cons (Care.Passes.refl _) .nil, hfalse, hfalse⟩
    rw [halso]
    exact books_become (m := (m.timer e.settings.requestTimeout).2) hj rfl
  | request origin f =>
    cases origin with
    | caller n =>
      refine ⟨some (.await (.caller n) f (m.timer e.settings.requestTimeout).1), none, none, ?_,
        rfl, hnone, .cons (Care.Passes.refl _) .nil, hfalse, hfalse⟩
      rw [halso]
      exact books_become (m := (m.timer e.settings.requestTimeout).2) hj rfl
    | editor conversation id =>
      refine ⟨some (.converse conversation), some (m.born,
        .await (.editor conversation id) f (m.timer e.settings.requestTimeout).1), none, ?_, rfl,
        ?_, .cons (Care.Passes.refl _) .nil, fun _ => rfl, fun _ => rfl⟩
      · obtain ⟨t, ht⟩ := hj
        simp only [sent, startAwait]
        rw [books_become ⟨t, List.mem_append_left _ ht⟩ rfl, books_spawn _ rfl]
        exact next_also (Nat.ne_of_gt hlt)
      · rintro r hr
        rw [← Option.some.inj hr]
        exact ⟨rfl, rfl⟩
  | forward caller f =>
    refine ⟨none, none, some (.request f), ?_, rfl, hnone, .cons (Care.Passes.refl _) .nil, hfalse,
      hfalse⟩
    rw [halso]
    exact m.books_finish j caller _ _

end Machine

end ShipBridge.Relay
