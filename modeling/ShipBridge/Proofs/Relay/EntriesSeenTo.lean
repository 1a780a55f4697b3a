import ShipBridge.Proofs.Relay.LineErrands

/-!
# Entries that are seen to

A poke or a request is seen to by a job that is sending or waiting, or by a caller who holds on to
what has been handed out. It has been entered: the poke under its id, with its ticket, and the
request under the correlation id that has been given out with its slot. A request that is being
sent is no other job's, and has not been handed out. So the books are in order at every moment of a
run in which callers wait only for requests that have been handed out.
-/

namespace ShipBridge.Relay

open Session (Answer Receipt)

def Books.Tends (b : Books) (c : Care) : Prop := ∃ i t, b.does i t ∧ t.care? = some c

/-- Somebody has this to see to: a job, or a caller who holds on to it. -/
def Books.Cares (b : Books) (c : Care) : Prop := b.Tends c ∨ ∃ h ∈ b.held, h.care? = some c

/-- The poke has been entered under its id with its ticket, and the request under the correlation
id that has been given out with its slot. -/
structure Books.Genuine (e : Surroundings) (b : Books) (c : Care) : Prop where
  tied : ∀ id, c.poke? = some id → b.session.Tied id c.ticket
  key : ∀ f, c.request? = some f →
    f.correlation = e.correlate (f.slot + 1) ∧ f.slot < b.pending.slots.length

def Books.Sends (b : Books) (i : Nat) (f : Forwarded) : Prop :=
  ∃ p c, b.does i (.sending p) ∧ p.care? = some c ∧ c.request? = some f

/-- A request that is being sent is no other job's, and has not been handed out. -/
structure Books.Apart (b : Books) : Prop where
  jobs : ∀ i k f g, b.Sends i f → b.Sends k g → f.slot = g.slot → i = k
  held : ∀ i f g, b.Sends i f → .request g ∈ b.held → f.slot ≠ g.slot

structure Books.Sound (e : Surroundings) (b : Books) : Prop where
  tidy : b.session.Tidy
  ledger : Machine.Ledger e b.pending b.issued
  lined : ∀ i, b.Lined i
  genuine : ∀ c, b.Cares c → b.Genuine e c
  apart : b.Apart

theorem Books.Sends.cares {b : Books} {i : Nat} {f : Forwarded} (h : b.Sends i f) :
    ∃ c, b.Cares c ∧ c.request? = some f := by
  obtain ⟨p, c, hp, hc, hf⟩ := h
  exact ⟨c, .inl ⟨i, .sending p, hp, hc⟩, hf⟩

theorem Purpose.poke?_of_care {p : Purpose} {c : Care} (h : p.care? = some c) :
    ∃ id, c.poke? = some id := by
  cases p <;> first
    | exact ⟨_, (congrArg Care.poke? (Option.some.inj h)).symm⟩
    | cases h

def Happening.awaits? : Happening → Option Forwarded
  | .call _ (.await f) => some f
  | _ => none

namespace Machine

variable {e : Surroundings} {m m' : Machine} {i j : Nat} {t : Task} {c : Care}

/-! ## The books stay in order -/

theorem Deed.ledger (h : Deed e j m m') (hl : Ledger e m.pending m.issued) :
    Ledger e m'.pending m'.issued := by
  have hbooks {p : Pending} {n : Nat} (hp : m'.pending = p) (hn : m'.issued = n)
      (hl' : Ledger e p n) : Ledger e m'.pending m'.issued := by
    rw [hp, hn]
    exact hl'
  cases h with
  | goesOn next s p issued input silent still care acts fades talks eq =>
    exact hbooks (congrArg Books.pending eq) (congrArg Books.issued eq) (fades.ledger hl)
  | forwards r f s p input silent free call care key slot talks eq =>
    refine hbooks (congrArg Books.pending eq) (congrArg Books.issued eq) ?_
    rw [key]
    exact ledger_enter hl
  | ends p a s next new held q own passes still plain hands failed fades talks resumes eq =>
    exact hbooks (congrArg Books.pending eq) (congrArg Books.issued eq) (fades.ledger hl)
  | forgets c id care silent poke eq =>
    refine hbooks (congrArg Books.pending eq) (congrArg Books.issued eq) ?_
    cases c.request? with
    | none => exact hl
    | some f => exact (fades_erase e _ _ _).ledger hl
  | _ =>
    rename_i eq
    exact hbooks (congrArg Books.pending eq) (congrArg Books.issued eq) hl

theorem Deed.tidy (h : Deed e j m m') (ht : m.session.Tidy) : m'.session.Tidy := by
  rcases h.leads with hs | ⟨a, -, hs⟩
  · rw [hs]
    exact ht
  · rw [hs]
    exact ht.act a

theorem Deed.tied (h : Deed e j m m') {id ticket : Nat} (ht : m.session.Tied id ticket) :
    m'.session.Tied id ticket := by
  rcases h.leads with hs | ⟨a, -, hs⟩
  · rw [hs]
    exact ht
  · rw [hs]
    exact ht.act a

/-- What has to be seen to has been taken over, or it has just been called for. -/
structure Fresh (e : Surroundings) (j : Nat) (m m' : Machine) (c : Care) : Prop where
  called : ∃ r id s, m.session.call? j r = some (.poke id c.ticket, s) ∧ m'.session = s ∧
    c.poke? = some id
  request : ∀ f, c.request? = some f → f.correlation = e.correlate (m.issued + 1) ∧
    f.slot = m.pending.slots.length ∧ m.pending.slots.length < m'.pending.slots.length

theorem cares_next {b : Books} (hdoes : b.does = m.books.does) (hheld : b.held = m.books.held)
    {next : Option Task} (hc : (b.next j next).Cares c) :
    m.books.Cares c ∨ next.bind Task.care? = some c := by
  rcases hc with ⟨i, t, hd, ht⟩ | ⟨h, hh, hcare⟩
  · simp only [Books.next] at hd
    split_ifs at hd
    · rw [hd]
      exact .inr ht
    · exact .inl (.inl ⟨i, t, hdoes ▸ hd, ht⟩)
  · exact .inl (.inr ⟨h, hheld ▸ hh, hcare⟩)

/-- After a sending has succeeded what it was for is handed on, if it is for anything; otherwise
nothing is handed on. -/
theorem handed_cases {p : Purpose} {a : Answer} {l : List Care}
    (hands : List.Forall₂ Care.Passes (p.kept a) l) : (p.kept a = [] ∧ l = []) ∨
      ∃ c d, a = .ok () ∧ p.care? = some c ∧ c.Passes d ∧ l = [d] := by
  cases a with
  | error f => exact .inl ⟨rfl, List.forall₂_nil_left_iff.mp hands⟩
  | ok =>
    cases hp : p.care? with
    | none =>
      have hkept : p.kept (.ok ()) = [] := by rw [Purpose.kept, hp]; rfl
      rw [hkept] at hands
      exact .inl ⟨hkept, List.forall₂_nil_left_iff.mp hands⟩
    | some c =>
      have hkept : p.kept (.ok ()) = [c] := by rw [Purpose.kept, hp]; rfl
      rw [hkept] at hands
      obtain ⟨d, l', hpass, hnil, rfl⟩ := List.forall₂_cons_left_iff.mp hands
      rw [List.forall₂_nil_left_iff.mp hnil]
      exact .inr ⟨c, d, rfl, rfl, hpass, rfl⟩

theorem mem_handed {next : Option Task} {new : Option (Nat × Task)} {held : Option Holding} :
    c ∈ handed next new held ↔ next.bind Task.care? = some c ∨
      (∃ k t, new = some (k, t) ∧ t.care? = some c) ∨ held.bind Holding.care? = some c := by
  simp [handed, Option.bind_eq_some_iff, Prod.exists]

/-- What is handed on is seen to by the job that goes on or by a new job, or held on to. -/
theorem tends_of_handed {next : Option Task} {new : Option (Nat × Task)} {held : Option Holding}
    (hc : c ∈ handed next new held) (b : Books) (j : Nat) :
    ((b.next j next).also new).Tends c ∨ ∃ r, held = some r ∧ r.care? = some c := by
  rcases mem_handed.mp hc with hnext | ⟨k, t, hnew, ht⟩ | hheld
  · obtain ⟨t, ht, htc⟩ := Option.bind_eq_some_iff.mp hnext
    exact .inl ⟨j, t, .inl (by simpa [Books.next] using ht), htc⟩
  · exact .inl ⟨k, t, .inr hnew, ht⟩
  · exact .inr (Option.bind_eq_some_iff.mp hheld)

theorem cares_ends {b : Books} (hdoes : b.does = m.books.does) {p : Purpose} {a : Answer}
    {next : Option Task} {new : Option (Nat × Task)} {held : Option Holding}
    (hheld : b.held = held.toList ++ m.books.held)
    (hands : List.Forall₂ Care.Passes (p.kept a) (handed next new held))
    (hc : ((b.next j next).also new).Cares c) :
    m.books.Cares c ∨ ∃ d, p.care? = some d ∧ d.Passes c := by
  have hhanded (hc : c ∈ handed next new held) : ∃ d, p.care? = some d ∧ d.Passes c := by
    rcases handed_cases hands with ⟨-, hnil⟩ | ⟨d, d', -, hd, hpass, hone⟩
    · rw [hnil] at hc
      cases hc
    · rw [hone, List.mem_singleton] at hc
      exact ⟨d, hd, hc ▸ hpass⟩
  rcases hc with ⟨i, t, hd | hnew, ht⟩ | ⟨h, hh, hcare⟩
  · simp only [Books.next] at hd
    split_ifs at hd
    · exact .inr (hhanded (mem_handed.mpr (.inl (by rw [hd]; exact ht))))
    · exact .inl (.inl ⟨i, t, hdoes ▸ hd, ht⟩)
  · exact .inr (hhanded (mem_handed.mpr (.inr (.inl ⟨i, t, hnew, ht⟩))))
  · change h ∈ b.held at hh
    rw [hheld, List.mem_append, Option.mem_toList] at hh
    rcases hh with hnew | hold
    · exact .inr (hhanded (mem_handed.mpr (.inr (.inr (by rw [hnew]; exact hcare)))))
    · exact .inl (.inr ⟨h, hold, hcare⟩)

theorem Deed.cares (hn : m.Numbered) (h : Deed e j m m') (hc : m'.books.Cares c) :
    (∃ d, m.books.Cares d ∧ d.Passes c) ∨ Fresh e j m m' c := by
  have hkept (hc : m.books.Cares c) : (∃ d, m.books.Cares d ∧ d.Passes c) ∨ Fresh e j m m' c :=
    .inl ⟨c, hc, .refl c⟩
  have hown (hj : (m.own j).bind Task.care? = some c) : m.books.Cares c := by
    obtain ⟨t, ht, htc⟩ := Option.bind_eq_some_iff.mp hj
    exact .inl ⟨j, t, hn.does_iff.mpr ht, htc⟩
  cases h with
  | stays eq => exact hkept (eq ▸ hc)
  | goesOn next s p issued input silent still care acts fades talks eq =>
    rw [eq] at hc
    exact (cares_next (b := { m.books with session := s, pending := p, issued, input })
      rfl rfl hc).elim hkept fun h => hkept (hown (care ▸ h))
  | calls r receipt s p input silent free call care talks eq =>
    rw [eq] at hc
    rcases cares_next (b := { m.books with session := s, input }) rfl rfl hc with hc | hp
    · exact hkept hc
    · have hreceipt : Care.ofReceipt? receipt = some c := care.symm.trans hp
      cases receipt with
      | poke id ticket =>
        obtain rfl := Option.some.inj hreceipt
        exact .inr ⟨⟨r, id, s, call, congrArg Books.session eq, rfl⟩, fun g hg => by cases hg⟩
      | _ => cases hreceipt
  | forwards r f s p input silent free call care key slot talks eq =>
    have hpending : m'.pending = (m.pending.enter f.correlation).2 := congrArg Books.pending eq
    have hsession : m'.session = s := congrArg Books.session eq
    rw [eq] at hc
    rcases cares_next (b := { m.books with
      session := s, pending := (m.pending.enter f.correlation).2, issued := m.issued + 1, input })
      rfl rfl hc with hc | hp
    · exact hkept hc
    · obtain rfl := Option.some.inj (care.symm.trans hp)
      refine .inr ⟨⟨r, f.poke, s, call, hsession, rfl⟩, ?_⟩
      intro g hg
      obtain rfl := Option.some.inj hg
      exact ⟨key, slot, by rw [hpending]; simp [Pending.enter]⟩
  | acknowledges silent free eq =>
    rw [eq] at hc
    exact (cares_next (b := { m.books with session := m.session.callAcknowledge j })
      rfl rfl hc).elim hkept fun h => by cases h
  | puts p batch s own granted send eq =>
    rw [eq] at hc
    exact hkept hc
  | ends p a s next new held q own passes still plain hands failed fades talks resumes eq =>
    rw [eq] at hc
    rcases cares_ends (b := { m.books with
      session := s, pending := q, held := held.toList ++ m.books.held }) rfl rfl hands hc with
      hc | ⟨d, hd, hpass⟩
    · exact hkept hc
    · exact .inl ⟨d, .inl ⟨j, .sending p, hn.does_iff.mpr own, hd⟩, hpass⟩
  | settles c' care plain silent outcome eq =>
    rw [eq] at hc
    exact (cares_next rfl rfl hc).elim hkept fun h => by cases h
  | forgets c' id care silent poke eq =>
    rw [eq] at hc
    exact (cares_next (b := { m.books with session := (m.session.forget id).2, pending := _ })
      rfl rfl hc).elim hkept fun h => by cases h
  | concludes origin f t v own slot eq =>
    rw [eq] at hc
    exact (cares_next rfl rfl hc).elim hkept fun h => by cases h

/-- A request that is being sent was being sent before, or it has a new slot. -/
theorem Deed.sends (h : Deed e j m m') {f : Forwarded} (hf : m'.books.Sends i f) :
    m.books.Sends i f ∨ (i = j ∧ f.slot = m.pending.slots.length) := by
  obtain ⟨p, c, hp, hc, hreq⟩ := hf
  by_cases hi : i = j
  · subst hi
    have hnext {b : Books} {next : Option Task} (heq : m'.books = b.next i next) :
        next = some (.sending p) := by
      rw [heq] at hp
      simpa only [Books.next, if_true] using hp
    cases h with
    | stays eq =>
      rw [eq] at hp
      exact .inl ⟨p, c, hp, hc, hreq⟩
    | goesOn next s q issued input silent still care acts fades talks eq =>
      rw [hnext eq] at still
      cases still
    | calls r receipt s q input silent free call care talks eq =>
      obtain rfl : q = p := Task.sending.inj (Option.some.inj (hnext eq))
      have hreceipt : Care.ofReceipt? receipt = some c := care.symm.trans hc
      cases receipt with
      | poke id ticket =>
        obtain rfl := Option.some.inj hreceipt
        cases hreq
      | _ => cases hreceipt
    | forwards r g s q input silent free call care key slot talks eq =>
      obtain rfl : q = p := Task.sending.inj (Option.some.inj (hnext eq))
      obtain rfl := Option.some.inj (care.symm.trans hc)
      obtain rfl := Option.some.inj hreq
      exact .inr ⟨rfl, slot⟩
    | acknowledges silent free eq =>
      obtain rfl : .acknowledge = p := Task.sending.inj (Option.some.inj (hnext eq))
      cases hc
    | puts q batch s own granted send eq =>
      rw [eq] at hp
      exact .inl ⟨p, c, hp, hc, hreq⟩
    | ends q a s next new held r own passes still plain hands failed fades talks resumes eq =>
      rw [eq] at hp
      rcases hp with hp | hp
      · simp only [Books.next, if_true] at hp
        rw [hp] at still
        cases still
      · cases (plain _ hp).1
    | settles c' care plain silent outcome eq => cases hnext eq
    | forgets c' id care silent poke eq => cases hnext eq
    | concludes origin g t v own slot eq => cases hnext eq
  · refine .inl ⟨p, c, ((h.others hi).2 hp).resolve_right ?_, hc, hreq⟩
    rintro ⟨hnone, -⟩
    cases hnone

/-- A request that is held has been held before, or its sending has just ended. -/
theorem Deed.held (hn : m.Numbered) (h : Deed e j m m') {g : Forwarded}
    (hg : .request g ∈ m'.books.held) : .request g ∈ m.books.held ∨
      (m.books.Sends j g ∧ ∀ f, ¬m'.books.Sends j f) := by
  cases h with
  | ends p a s next new held q own passes still plain hands failed fades talks resumes eq =>
    have hsends : ∀ f, ¬m'.books.Sends j f := by
      rintro f ⟨p', c, hp, -⟩
      rw [eq] at hp
      rcases hp with hp | hp
      · simp only [Books.next, if_true] at hp
        rw [hp] at still
        cases still
      · cases (plain _ hp).1
    rw [eq] at hg
    change .request g ∈ held.toList ++ m.books.held at hg
    rw [List.mem_append, Option.mem_toList] at hg
    rcases hg with hnew | hold
    · have hc : Care.ofRequest g ∈ handed next new held := by
        refine mem_handed.mpr (.inr (.inr ?_))
        rw [hnew]
        rfl
      rcases handed_cases hands with ⟨-, hnil⟩ | ⟨c, d, -, hc', hpass, hone⟩
      · rw [hnil] at hc
        cases hc
      · rw [hone, List.mem_singleton] at hc
        exact .inr ⟨⟨p, c, hn.does_iff.mpr own, hc', by rw [← hpass.request, ← hc]; rfl⟩, hsends⟩
    · exact .inl hold
  | _ =>
    rename_i eq
    rw [eq] at hg
    exact .inl hg

theorem Deed.sound (hn : m.Numbered) (h : Deed e j m m')
    (hslots : m.pending.slots.length ≤ m'.pending.slots.length) (hs : m.books.Sound e) :
    m'.books.Sound e where
  tidy := h.tidy hs.tidy
  ledger := h.ledger hs.ledger
  lined i := by
    by_cases hi : i = j
    · subst hi
      exact h.lined_own hn (hs.lined i)
    · exact h.lined_other hi (hs.lined i)
  genuine c hc := by
    rcases h.cares hn hc with ⟨d, hd, hpass⟩ | ⟨⟨r, id, s, hcall, hs', hid⟩, hrequest⟩
    · obtain ⟨htied, hkey⟩ := hs.genuine d hd
      refine ⟨fun id hid => ?_, fun f hf => ?_⟩
      · rw [hpass.ticket]
        exact h.tied (htied id (hpass.poke id hid))
      · obtain ⟨hcorrelation, hlt⟩ := hkey f (hpass.request ▸ hf)
        exact ⟨hcorrelation, Nat.lt_of_lt_of_le hlt hslots⟩
    · refine ⟨fun id' hid' => ?_, fun f hf => ?_⟩
      · obtain rfl := Option.some.inj (hid.symm.trans hid')
        change m'.session.Tied id c.ticket
        rw [hs']
        exact Session.tied_of_call hs.tidy hcall
      · obtain ⟨hkey, hslot, hlt⟩ := hrequest f hf
        have hlength : m.pending.slots.length = m.issued := hs.ledger.length
        refine ⟨?_, ?_⟩
        · rw [hkey, hslot, hlength]
        · rw [hslot]
          exact hlt
  apart := by
    have hlt {i : Nat} {f : Forwarded} (hf : m.books.Sends i f) :
        f.slot < m.pending.slots.length := by
      obtain ⟨c, hc, hreq⟩ := hf.cares
      exact ((hs.genuine c hc).key f hreq).2
    have hheld {g : Forwarded} (hg : .request g ∈ m.books.held) :
        g.slot < m.pending.slots.length :=
      ((hs.genuine (.ofRequest g) (.inr ⟨_, hg, rfl⟩)).key g rfl).2
    refine ⟨fun i k f g hf hg hslot => ?_, fun i f g hf hg => ?_⟩
    · rcases h.sends hf with hf | ⟨rfl, hf⟩ <;> rcases h.sends hg with hg | ⟨rfl, hg⟩
      · exact hs.apart.jobs i k f g hf hg hslot
      · have := hlt hf
        omega
      · have := hlt hg
        omega
      · rfl
    · rcases h.held hn hg with hold | ⟨hsent, hnone⟩
      · rcases h.sends hf with hf | ⟨rfl, hf⟩
        · exact hs.apart.held i f g hf hold
        · have := hheld hold
          omega
      · rcases h.sends hf with hf' | ⟨rfl, hf'⟩
        · intro heq
          obtain rfl := hs.apart.jobs i j f g hf' hsent heq
          exact hnone f hf
        · exact absurd hf (hnone f)

/-- A caller waits only for a request that has been handed out. -/
def Proper (m : Machine) (h : Happening) : Prop :=
  ∀ f, h.awaits? = some f → .request f ∈ m.books.held

theorem Outside.sound (h : Outside e m m') (hs : m.books.Sound e)
    (hlined : ∀ i, m'.books.Lined i) : m'.books.Sound e := by
  have hledger : Ledger e m'.pending m'.issued := h.fades.ledger hs.ledger
  have hslots : m.pending.slots.length ≤ m'.pending.slots.length := by
    rw [show m.pending.slots.length = m.issued from hs.ledger.length, hledger.length]
    exact h.fades.issued
  have hsends (i : Nat) (f : Forwarded) : m'.books.Sends i f ↔ m.books.Sends i f := by
    simp only [Books.Sends, h.does]
  have htied {id ticket : Nat} (ht : m.session.Tied id ticket) : m'.session.Tied id ticket := by
    rcases h.acts with hs | ⟨n, a, -, hs⟩
    · rw [hs]
      exact ht
    · rw [hs]
      exact ht.act a
  refine ⟨?_, hledger, hlined, fun c hc => ?_, ?_⟩
  · change m'.session.Tidy
    rcases h.acts with hs' | ⟨n, a, -, hs'⟩
    · rw [hs']
      exact hs.tidy
    · rw [hs']
      exact hs.tidy.act a
  · have hold : m.books.Cares c := by
      simpa only [Books.Cares, Books.Tends, h.does, h.held] using hc
    obtain ⟨ht, hkey⟩ := hs.genuine c hold
    refine ⟨fun id hid => htied (ht id hid), fun f hf => ?_⟩
    exact ⟨(hkey f hf).1, Nat.lt_of_lt_of_le (hkey f hf).2 hslots⟩
  · refine ⟨fun i k f g hf hg => ?_, fun i f g hf hg => ?_⟩
    · exact hs.apart.jobs i k f g ((hsends i f).mp hf) ((hsends k g).mp hg)
    · exact hs.apart.held i f g ((hsends i f).mp hf) (h.held ▸ hg)

theorem call_sound {n : Nat} {call : Call} (hs : m.books.Sound e)
    (hp : Proper m (.call n call)) (hlined : ∀ i, (m.after e (.call n call)).books.Lined i) :
    (m.after e (.call n call)).books.Sound e := by
  have hsends (i : Nat) (f : Forwarded) :
      (m.after e (.call n call)).books.Sends i f ↔ m.books.Sends i f := by
    refine exists_congr fun p => exists_congr fun c => and_congr_left fun _ => ?_
    rw [(books_call m n call).1]
    refine ⟨fun h => h.resolve_right ?_, .inl⟩
    rintro ⟨heq, -⟩
    cases (Prod.mk.inj heq).2
  refine ⟨hs.tidy, hs.ledger, hlined, fun c hc => ?_, ?_⟩
  · have hgenuine (hc : m.books.Cares c) : (m.after e (.call n call)).books.Genuine e c :=
      ⟨(hs.genuine c hc).tied, (hs.genuine c hc).key⟩
    rcases hc with ⟨i, t, hd, ht⟩ | hheld
    · rw [(books_call m n call).1] at hd
      rcases hd with hd | ⟨heq, -⟩
      · exact hgenuine (.inl ⟨i, t, hd, ht⟩)
      · obtain ⟨-, rfl⟩ := Prod.mk.inj heq
        cases call with
        | await f =>
          obtain rfl := Option.some.inj ht
          exact hgenuine (.inr ⟨_, hp f rfl, rfl⟩)
        | outcome ticket =>
          obtain rfl := Option.some.inj ht
          exact ⟨nofun, nofun⟩
        | _ => cases ht
    · exact hgenuine (.inr hheld)
  · refine ⟨fun i k f g hf hg => ?_, fun i f g hf hg => ?_⟩
    · exact hs.apart.jobs i k f g ((hsends i f).mp hf) ((hsends k g).mp hg)
    · exact hs.apart.held i f g ((hsends i f).mp hf) hg

theorem sound_after (hn : m.Numbered) (hs : m.books.Sound e) {h : Happening} (hp : Proper m h) :
    (m.after e h).books.Sound e := by
  have hlined := lined_after (e := e) hn hs.lined h
  by_cases hstep : ∃ j, h = .step j
  · obtain ⟨j, rfl⟩ := hstep
    exact (step_deed hn j).sound hn (after_onward hn (.step j)).slots hs
  by_cases hcall : ∃ n c, h = .call n c
  · obtain ⟨n, c, rfl⟩ := hcall
    exact call_sound hs hp hlined
  · exact (after_outside m (fun j hj => hstep ⟨j, hj⟩) fun n c hc => hcall ⟨n, c, hc⟩).sound hs
      hlined

theorem sound_initial : ({} : Machine).books.Sound e where
  tidy := Session.tidy_initial
  ledger := ⟨rfl, nofun⟩
  lined := lined_initial
  genuine c hc := by
    rcases hc with ⟨i, t, hd, -⟩ | ⟨h, hh, -⟩
    · exact absurd hd.1 List.not_mem_nil
    · exact absurd hh List.not_mem_nil
  apart := ⟨fun _ _ _ _ ⟨_, _, hd, _⟩ => absurd hd.1 List.not_mem_nil,
    fun _ _ _ ⟨_, _, hd, _⟩ => absurd hd.1 List.not_mem_nil⟩

end Machine

end ShipBridge.Relay
