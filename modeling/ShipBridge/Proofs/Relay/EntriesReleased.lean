import ShipBridge.Proofs.Relay.EntriesSeenTo

/-!
# The release of entries

An entry in the table of pokes or among the pending requests has somebody who sees to it: a job
that is sending or waiting, or a caller who holds on to what has been handed out. Whoever gives
this up takes the entries out, with one exception. A request may be answered before the poke that
has carried it; then nobody waits for the answer to the poke any more, and its entry stays behind.
-/

namespace ShipBridge.Relay

open Session (Answer Receipt)

def Output.value? : Output → Option (Nat × Json)
  | .finished caller (.ok v) _ => some (caller, v)
  | _ => none

def Task.awaited? : Task → Option Forwarded
  | .await _ f _ => some f
  | _ => none

namespace Machine

variable {e : Surroundings} {m m' : Machine} {i j : Nat} {t : Task} {c : Care}

/-! ## Giving up what had to be seen to -/

/-- The answer to a request has come, and the poke that has carried the request has not been
answered. -/
def Overtaken (m : Machine) (f : Forwarded) : Prop :=
  (∃ v, m.pending.slot? f.slot = some (.ok v)) ∧
    (m.session.state.pokes.slot f.ticket).outcome? = none

theorem Ledger.no_entry {p : Pending} {n : Nat} (h : Ledger e p n) {k : Nat} {o : Outcome}
    (ho : p.slot? k = some o) : ∀ q ∈ p.entries, q.2 ≠ k := by
  rintro ⟨key, k'⟩ hq rfl
  have hempty := (h.entry key k' hq).2
  simp [Pending.slot?, hempty] at ho

theorem Ledger.no_entry_erase {p : Pending} {n : Nat} (h : Ledger e p n) {f : Forwarded}
    (hf : f.correlation = e.correlate (f.slot + 1)) :
    ∀ q ∈ (p.erase f.correlation).entries, q.2 ≠ f.slot := by
  rintro ⟨key, k⟩ hq rfl
  obtain ⟨hmem, hne⟩ := List.mem_filter.mp hq
  rw [(h.entry key _ hmem).1, hf] at hne
  simp at hne

theorem no_entry_of_outcome {s : Session} (h : s.Tidy) {ticket : Nat}
    (ho : (s.state.pokes.slot ticket).outcome?.isSome = true) (id : Nat) :
    s.state.pokes.ticket? id ≠ some ticket := by
  intro hid
  rw [h.unsettled id ticket hid] at ho
  cases ho

theorem no_entry_of_tied {s : Session} {id ticket : Nat} (h : s.Tied id ticket)
    (hid : s.state.pokes.ticket? id = none) (i : Nat) :
    s.state.pokes.ticket? i ≠ some ticket := by
  intro hi
  obtain rfl := (h.same i ticket hi).mpr rfl
  rw [hid] at hi
  cases hi

/-- What a job has had to see to is handed on, or it is given up and the entries have been taken
out, unless the answer to the request has overtaken the answer to the poke. -/
theorem Deed.releases (hn : m.Numbered) (hs : m.books.Sound e) (h : Deed e j m m')
    (hj : (m.own j).bind Task.care? = some c) :
    (∃ d, c.Passes d ∧ (m'.books.Tends d ∨
      ∃ r ∈ m'.books.held, r.care? = some d ∧ ∀ f, r = .request f → m.books.Sends j f)) ∨
    ((∀ f, c.request? = some f → ∀ q ∈ m'.pending.entries, q.2 ≠ f.slot) ∧
      ((∀ id, m'.session.state.pokes.ticket? id ≠ some c.ticket) ∨ ∃ origin f d,
        m.own j = some (.await origin f d) ∧ m.Overtaken f ∧ c = .ofRequest f)) := by
  have hgenuine : m.books.Genuine e c := by
    obtain ⟨t, ht, htc⟩ := Option.bind_eq_some_iff.mp hj
    exact hs.genuine c (.inl ⟨j, t, hn.does_iff.mpr ht, htc⟩)
  have hsame (hdoes : m'.books.does = m.books.does) :
      m'.books.Tends c := by
    obtain ⟨t, ht, htc⟩ := Option.bind_eq_some_iff.mp hj
    exact ⟨j, t, hdoes ▸ hn.does_iff.mpr ht, htc⟩
  cases h with
  | stays eq => exact .inl ⟨c, .refl c, .inl (hsame (by rw [eq]))⟩
  | goesOn next s p issued input silent still care acts fades talks eq =>
    obtain ⟨t, ht, htc⟩ := Option.bind_eq_some_iff.mp (care.trans hj)
    refine .inl ⟨c, .refl c, .inl ⟨j, t, ?_, htc⟩⟩
    rw [eq]
    simpa [Books.next] using ht
  | calls r receipt s p input silent free call care talks eq => cases free.symm.trans hj
  | forwards r f s p input silent free call care key slot talks eq => cases free.symm.trans hj
  | acknowledges silent free eq => cases free.symm.trans hj
  | puts p batch s own granted send eq => exact .inl ⟨c, .refl c, .inl (hsame (by rw [eq]))⟩
  | ends p a s next new held q own passes still plain hands failed fades talks resumes eq =>
    have hp : p.care? = some c := by
      rw [own] at hj
      exact hj
    cases a with
    | ok =>
      obtain ⟨hnone, -⟩ | ⟨c', d, -, hc', hpass, hone⟩ := handed_cases hands
      · rw [Purpose.kept, hp] at hnone
        cases hnone
      · obtain rfl := Option.some.inj (hp.symm.trans hc')
        refine .inl ⟨d, hpass, ?_⟩
        rw [eq]
        rcases tends_of_handed (hone ▸ List.mem_singleton_self d) _ j with
          htends | ⟨r, rfl, hrd⟩
        · exact .inl htends
        · refine .inr ⟨r, List.mem_append_left _ (List.mem_singleton_self r), hrd, ?_⟩
          rintro f rfl
          obtain rfl := Option.some.inj hrd
          exact ⟨p, c, hn.does_iff.mpr own, hp, hpass.request.symm⟩
    | error fault =>
      have hsession : m'.session = s := congrArg Books.session eq
      have hpending : m'.pending = q := congrArg Books.pending eq
      refine .inr ⟨fun f hf => ?_, .inl ?_⟩
      · rw [hpending, failed fault rfl c f hp hf]
        exact hs.ledger.no_entry_erase (hgenuine.key f hf).1
      · obtain ⟨id, hid⟩ := Purpose.poke?_of_care hp
        obtain ⟨b, r', hb, -⟩ := passes.leaves e.reconnect.maxAttempts
        rw [hsession]
        refine no_entry_of_tied ?_
          (withdrawn_of_passes (hs.lined j) (hn.does_iff.mpr own) hp hid passes)
        rw [hb]
        exact (hgenuine.tied id hid).act b
  | settles c' care plain silent outcome eq =>
    obtain rfl := Option.some.inj (care.symm.trans hj)
    have hsession : m'.session = m.session := congrArg Books.session eq
    refine .inr ⟨fun f hf => ?_, .inl ?_⟩
    · rw [plain] at hf
      cases hf
    · rw [hsession]
      exact no_entry_of_outcome hs.tidy outcome
  | forgets c' id care silent poke eq =>
    obtain rfl := Option.some.inj (care.symm.trans hj)
    have hsession : m'.session = (m.session.forget id).2 := congrArg Books.session eq
    have hpending : m'.pending =
        c'.request?.elim m.pending fun f => m.pending.erase f.correlation :=
      congrArg Books.pending eq
    refine .inr ⟨fun f hf => ?_, .inl ?_⟩
    · rw [hpending, hf]
      exact hs.ledger.no_entry_erase (hgenuine.key f hf).1
    · rw [hsession]
      exact no_entry_of_tied ((hgenuine.tied id poke).act (n := 0) (.forget id))
        (Session.ticket?_forget id)
  | concludes origin f t v own slot eq =>
    obtain rfl : .ofRequest f = c := by
      rw [own] at hj
      exact Option.some.inj hj
    have hsession : m'.session = m.session := congrArg Books.session eq
    have hpending : m'.pending = m.pending := congrArg Books.pending eq
    refine .inr ⟨fun g hg => ?_, ?_⟩
    · obtain rfl := Option.some.inj hg
      rw [hpending]
      exact hs.ledger.no_entry slot
    · by_cases ho : (m.session.state.pokes.slot f.ticket).outcome?.isSome = true
      · rw [hsession]
        exact .inl (no_entry_of_outcome hs.tidy ho)
      · exact .inr ⟨origin, f, t, own, ⟨⟨v, slot⟩, by simpa using ho⟩, rfl⟩

/-! ## Every entry is accounted for -/

theorem Deed.entered (h : Deed e j m m') :
    (∀ id ticket, m'.session.state.pokes.ticket? id = some ticket →
      m.session.state.pokes.ticket? id = some ticket ∨
        ∃ c, m'.books.Tends c ∧ c.ticket = ticket) ∧
    ∀ q ∈ m'.pending.entries, q ∈ m.pending.entries ∨
      ∃ c f, m'.books.Tends c ∧ c.request? = some f ∧ f.slot = q.2 := by
  have hact {a : Session.Action} (ha : ∀ owner r, a ≠ .call owner r) {n : Nat}
      (hs : m'.session = m.session.act n a) (id ticket : Nat)
      (hid : m'.session.state.pokes.ticket? id = some ticket) :
      m.session.state.pokes.ticket? id = some ticket ∨
        ∃ c, m'.books.Tends c ∧ c.ticket = ticket := by
    rw [hs] at hid
    exact .inl (Session.ticket?_of_act ha hid)
  have hpokes (hs : m'.session.state.pokes = m.session.state.pokes) (id ticket : Nat)
      (hid : m'.session.state.pokes.ticket? id = some ticket) :
      m.session.state.pokes.ticket? id = some ticket ∨
        ∃ c, m'.books.Tends c ∧ c.ticket = ticket := .inl (hs ▸ hid)
  have hfewer {p : Pending} (hp : m'.pending = p) (hq : ∀ q ∈ p.entries, q ∈ m.pending.entries)
      (q : String × Nat) (hmem : q ∈ m'.pending.entries) : q ∈ m.pending.entries ∨
        ∃ c f, m'.books.Tends c ∧ c.request? = some f ∧ f.slot = q.2 :=
    .inl (hq q (hp ▸ hmem))
  have htends {b : Books} {p : Purpose} (heq : m'.books = b.next j (some (.sending p)))
      {c : Care} (hc : p.care? = some c) : m'.books.Tends c := by
    refine ⟨j, .sending p, ?_, hc⟩
    rw [heq]
    simp [Books.next]
  cases h with
  | stays eq =>
    exact ⟨hpokes (by rw [show m'.session = m.session from congrArg Books.session eq]),
      hfewer (congrArg Books.pending eq) fun _ hq => hq⟩
  | goesOn next s p issued input silent still care acts fades talks eq =>
    have hs : m'.session = s := congrArg Books.session eq
    refine ⟨?_, hfewer (congrArg Books.pending eq) fades.entries⟩
    rcases acts with rfl | ⟨a, ha, rfl⟩
    · exact hpokes (by rw [hs])
    · refine hact ?_ hs
      rintro owner r rfl
      cases ha
  | calls r receipt s p input silent free call care talks eq =>
    refine ⟨fun id ticket hid => ?_, hfewer (congrArg Books.pending eq) fun _ hq => hq⟩
    rw [show m'.session = s from congrArg Books.session eq] at hid
    rcases Session.ticket?_of_call call hid with hold | rfl
    · exact .inl hold
    · exact .inr ⟨.ofPoke id ticket, htends eq care, rfl⟩
  | forwards r f s p input silent free call care key slot talks eq =>
    refine ⟨fun id ticket hid => ?_, fun q hq => ?_⟩
    · rw [show m'.session = s from congrArg Books.session eq] at hid
      rcases Session.ticket?_of_call call hid with hold | heq
      · exact .inl hold
      · exact .inr ⟨.ofRequest f, htends eq care, (Receipt.poke.inj heq).2⟩
    · rw [show m'.pending = (m.pending.enter f.correlation).2 from congrArg Books.pending eq] at hq
      rcases List.mem_cons.mp hq with rfl | hold
      · exact .inr ⟨.ofRequest f, f, htends eq care, rfl, slot⟩
      · exact .inl (List.mem_of_mem_filter hold)
  | acknowledges silent free eq =>
    refine ⟨hpokes ?_, hfewer (congrArg Books.pending eq) fun _ hq => hq⟩
    rw [show m'.session = m.session.callAcknowledge j from congrArg Books.session eq]
    rfl
  | puts p batch s own granted send eq =>
    refine ⟨hact (n := 0) (a := .proceed) (fun _ _ h => by cases h) ?_,
      hfewer (congrArg Books.pending eq) fun _ hq => hq⟩
    rw [show m'.session = s from congrArg Books.session eq]
    simp [Session.act, send]
  | ends p a s next new held q own passes still plain hands failed fades talks resumes eq =>
    obtain ⟨b, r, hb, -, hleaves, -⟩ := passes.leaves 0
    refine ⟨hact ?_ ((congrArg Books.session eq).trans hb),
      hfewer (congrArg Books.pending eq) fades.entries⟩
    rintro owner r' rfl
    cases hleaves
  | settles c care plain silent outcome eq =>
    exact ⟨hpokes (by rw [show m'.session = m.session from congrArg Books.session eq]),
      hfewer (congrArg Books.pending eq) fun _ hq => hq⟩
  | forgets c id care silent poke eq =>
    refine ⟨hact (n := 0) (a := .forget id) (fun _ _ h => by cases h) (congrArg Books.session eq),
      hfewer (congrArg Books.pending eq) ?_⟩
    cases c.request? with
    | none => exact fun _ hq => hq
    | some f => exact fun _ hq => List.mem_of_mem_filter hq
  | concludes origin f t v own slot eq =>
    exact ⟨hpokes (by rw [show m'.session = m.session from congrArg Books.session eq]),
      hfewer (congrArg Books.pending eq) fun _ hq => hq⟩

theorem Deed.held_mono (h : Deed e j m m') : ∀ r ∈ m.books.held, r ∈ m'.books.held := by
  intro r hr
  cases h with
  | ends p a s next new held q own passes still plain hands failed fades talks resumes eq =>
    rw [eq]
    exact List.mem_append_right _ hr
  | _ =>
    rename_i eq
    rw [eq]
    exact hr

def awaited (tr : List (Machine × Happening)) : List Forwarded :=
  tr.filterMap fun p => p.2.awaits?

/-- A wait has ended with an answer that had overtaken the answer to the poke. -/
def LeftBehind (tr : List (Machine × Happening)) (f : Forwarded) : Prop :=
  ∃ u j origin d, (u, .step j) ∈ tr ∧ u.task? j = some (.await origin f d) ∧ u.Overtaken f

/-- Somebody still has this to see to: a job, or a caller who has not yet begun to wait. -/
def Keeps (tr : List (Machine × Happening)) (m : Machine) (c : Care) : Prop := m.books.Tends c ∨
  ∃ r ∈ m.books.held, r.care? = some c ∧ ∀ f, r = .request f → f ∉ awaited tr

theorem Keeps.cares {tr : List (Machine × Happening)} (h : Keeps tr m c) : m.books.Cares c := by
  rcases h with htends | ⟨r, hr, hc, -⟩
  · exact .inl htends
  · exact .inr ⟨r, hr, hc⟩

/-- Every entry has somebody who sees to it, or has been left behind. -/
structure Accounted (tr : List (Machine × Happening)) (m : Machine) : Prop where
  pokes : ∀ id ticket, m.session.state.pokes.ticket? id = some ticket →
    (∃ c, Keeps tr m c ∧ c.ticket = ticket) ∨
      ∃ f, LeftBehind tr f ∧ f.poke = id ∧ f.ticket = ticket
  requests : ∀ q ∈ m.pending.entries, ∃ c f, Keeps tr m c ∧ c.request? = some f ∧ f.slot = q.2

section Step

variable {tr : List (Machine × Happening)}

/-- What somebody had to see to is handed on, or its entries have gone or been left behind. -/
theorem Keeps.step (hn : m.Numbered) (hs : m.books.Sound e) (h : Deed e j m m')
    (hawaited : ∀ f ∈ awaited tr, .request f ∈ m.books.held) (hk : Keeps tr m c) :
    (∃ d, c.Passes d ∧ Keeps (tr ++ [(m, .step j)]) m' d) ∨
    ((∀ f, c.request? = some f → ∀ q ∈ m'.pending.entries, q.2 ≠ f.slot) ∧
      ((∀ id, m'.session.state.pokes.ticket? id ≠ some c.ticket) ∨
        ∃ f, LeftBehind (tr ++ [(m, .step j)]) f ∧ c = .ofRequest f)) := by
  have hnone : awaited (tr ++ [(m, .step j)]) = awaited tr := by
    simp [awaited, Happening.awaits?]
  rcases hk with ⟨i, t, hd, ht⟩ | ⟨r, hr, hc, hfree⟩
  · by_cases hi : i = j
    · subst hi
      have hown : (m.own i).bind Task.care? = some c := by rw [hn.does_iff.mp hd]; exact ht
      rcases h.releases hn hs hown with ⟨d, hpass, htends | ⟨r, hr, hc, hsends⟩⟩ | ⟨hgone, hleft⟩
      · exact .inl ⟨d, hpass, .inl htends⟩
      · refine .inl ⟨d, hpass, .inr ⟨r, hr, hc, fun f hf hmem => ?_⟩⟩
        rw [hnone] at hmem
        exact hs.apart.held i f f (hsends f hf) (hawaited f hmem) rfl
      · refine .inr ⟨hgone, hleft.imp id ?_⟩
        rintro ⟨origin, f, d, ho, hover, hf⟩
        refine ⟨f, ⟨m, i, origin, d, by simp, ?_, hover⟩, hf⟩
        exact (Option.filter_eq_some_iff.mp ho).1
    · exact .inl ⟨c, .refl c, .inl ⟨i, t, (h.others hi).1 hd, ht⟩⟩
  · refine .inl ⟨c, .refl c, .inr ⟨r, h.held_mono r hr, hc, fun f hf => ?_⟩⟩
    rw [hnone]
    exact hfree f hf

theorem LeftBehind.append {f : Forwarded} (h : LeftBehind tr f) (q : Machine × Happening) :
    LeftBehind (tr ++ [q]) f := by
  obtain ⟨u, j, origin, d, hmem, hf⟩ := h
  exact ⟨u, j, origin, d, List.mem_append_left _ hmem, hf⟩

theorem Accounted.step (hn : m.Numbered) (hs : m.books.Sound e) (h : Deed e j m m')
    (hawaited : ∀ f ∈ awaited tr, .request f ∈ m.books.held) (ha : Accounted tr m) :
    Accounted (tr ++ [(m, .step j)]) m' := by
  refine ⟨fun id ticket hid => ?_, fun q hq => ?_⟩
  · rcases h.entered.1 id ticket hid with hold | ⟨c, hc, hticket⟩
    · rcases ha.pokes id ticket hold with ⟨c, hk, rfl⟩ | ⟨f, hf, hpoke, hticket⟩
      · rcases hk.step hn hs h hawaited with ⟨d, hpass, hd⟩ | ⟨-, hgone | ⟨f, hf, rfl⟩⟩
        · exact .inl ⟨d, hd, hpass.ticket⟩
        · exact absurd hid (hgone id)
        · have htied := (hs.genuine _ hk.cares).tied f.poke rfl
          exact .inr ⟨f, hf, ((htied.same id f.ticket hold).mpr rfl).symm, rfl⟩
      · exact .inr ⟨f, hf.append _, hpoke, hticket⟩
    · exact .inl ⟨c, .inl hc, hticket⟩
  · rcases h.entered.2 q hq with hold | ⟨c, f, hc, hf, hslot⟩
    · obtain ⟨c, f, hk, hf, hslot⟩ := ha.requests q hold
      rcases hk.step hn hs h hawaited with ⟨d, hpass, hd⟩ | ⟨hgone, -⟩
      · exact ⟨d, f, hd, hpass.request.trans hf, hslot⟩
      · exact absurd hslot.symm (hgone f hf q hq)
    · exact ⟨c, f, .inl hc, hf, hslot⟩

theorem Accounted.call {n : Nat} {call : Call} (ha : Accounted tr m) :
    Accounted (tr ++ [(m, .call n call)]) (m.after e (.call n call)) := by
  have hkeeps {c : Care} (hk : Keeps tr m c) :
      Keeps (tr ++ [(m, .call n call)]) (m.after e (.call n call)) c := by
    rcases hk with ⟨i, t, hd, ht⟩ | ⟨r, hr, hc, hfree⟩
    · exact .inl ⟨i, t, ((books_call m n call).1 i t).mpr (.inl hd), ht⟩
    · by_cases hr' : ∃ f, r = .request f ∧ call = .await f
      · obtain ⟨f, rfl, rfl⟩ := hr'
        exact .inl ⟨m.born, .start n (.await f), ((books_call m n _).1 _ _).mpr (.inr ⟨rfl, rfl⟩),
          hc⟩
      · refine .inr ⟨r, hr, hc, fun f hf hmem => ?_⟩
        rw [awaited, List.filterMap_append, List.mem_append] at hmem
        rcases hmem with hold | hnew
        · exact hfree f hf hold
        · obtain ⟨q, hq, hwaits⟩ := List.mem_filterMap.mp hnew
          rw [List.mem_singleton.mp hq] at hwaits
          cases call with
          | await g =>
            obtain rfl := Option.some.inj hwaits
            exact hr' ⟨g, hf, rfl⟩
          | _ => cases hwaits
  refine ⟨fun id ticket hid => ?_, fun q hq => ?_⟩
  · rcases ha.pokes id ticket hid with ⟨c, hk, hc⟩ | ⟨f, hf, hfound⟩
    · exact .inl ⟨c, hkeeps hk, hc⟩
    · exact .inr ⟨f, hf.append _, hfound⟩
  · obtain ⟨c, f, hk, hf⟩ := ha.requests q hq
    exact ⟨c, f, hkeeps hk, hf⟩

theorem Accounted.outside {h : Happening} (hout : Outside e m m') (hwaits : h.awaits? = none)
    (ha : Accounted tr m) : Accounted (tr ++ [(m, h)]) m' := by
  have hkeeps {c : Care} (hk : Keeps tr m c) : Keeps (tr ++ [(m, h)]) m' c := by
    have hnone : awaited (tr ++ [(m, h)]) = awaited tr := by simp [awaited, hwaits]
    simpa only [Keeps, Books.Tends, hnone, hout.does, hout.held] using hk
  refine ⟨fun id ticket hid => ?_, fun q hq => ?_⟩
  · have hold : m.session.state.pokes.ticket? id = some ticket := by
      rcases hout.acts with hs | ⟨n, a, hquiet, hs⟩
      · rwa [hs] at hid
      · rw [hs] at hid
        refine Session.ticket?_of_act ?_ hid
        rintro owner r rfl
        cases hquiet
    rcases ha.pokes id ticket hold with ⟨c, hk, hc⟩ | ⟨f, hf, hfound⟩
    · exact .inl ⟨c, hkeeps hk, hc⟩
    · exact .inr ⟨f, hf.append _, hfound⟩
  · obtain ⟨c, f, hk, hf⟩ := ha.requests q (hout.fades.entries q hq)
    exact ⟨c, f, hkeeps hk, hf⟩

/-- What holds of the books, and of the entries, at every moment of a run. -/
structure Kept (e : Surroundings) (tr : List (Machine × Happening)) (m : Machine) : Prop where
  orderly : m.Orderly
  sound : m.books.Sound e
  awaited : ∀ f ∈ awaited tr, .request f ∈ m.books.held
  accounted : Accounted tr m

theorem Kept.after {h : Happening} (hk : Kept e tr m) (hp : Proper m h) :
    Kept e (tr ++ [(m, h)]) (m.after e h) := by
  have hn := hk.orderly.numbered
  have hsound := sound_after hn hk.sound hp
  have hawaited (hheld : ∀ r ∈ m.books.held, r ∈ (m.after e h).books.held) :
      ∀ f ∈ Machine.awaited (tr ++ [(m, h)]), .request f ∈ (m.after e h).books.held := by
    intro f hf
    rw [Machine.awaited, List.filterMap_append, List.mem_append] at hf
    rcases hf with hold | hnew
    · exact hheld _ (hk.awaited f hold)
    · obtain ⟨q, hq, hwaits⟩ := List.mem_filterMap.mp hnew
      rw [List.mem_singleton.mp hq] at hwaits
      exact hheld _ (hp f hwaits)
  by_cases hstep : ∃ j, h = .step j
  · obtain ⟨j, rfl⟩ := hstep
    have hd := step_deed (e := e) hn j
    exact ⟨hk.orderly.after _, hsound, hawaited hd.held_mono,
      hk.accounted.step hn hk.sound hd hk.awaited⟩
  by_cases hcall : ∃ n c, h = .call n c
  · obtain ⟨n, c, rfl⟩ := hcall
    exact ⟨hk.orderly.after _, hsound, hawaited fun _ hr => hr, hk.accounted.call⟩
  · have hout := after_outside m (e := e) (fun j hj => hstep ⟨j, hj⟩)
      fun n c hc => hcall ⟨n, c, hc⟩
    have hwaits : h.awaits? = none := by
      cases h with
      | call n c => exact absurd ⟨n, c, rfl⟩ hcall
      | _ => rfl
    exact ⟨hk.orderly.after _, hsound, hawaited fun r hr => hout.held ▸ hr,
      hk.accounted.outside hout hwaits⟩

end Step

theorem kept_run {hs : List Happening} (hp : ∀ q ∈ trail e {} hs, Proper q.1 q.2) :
    Kept e (trail e {} hs) (run e {} hs) := by
  induction hs using List.reverseRecOn with
  | nil => exact ⟨orderly_initial, sound_initial, nofun, ⟨nofun, nofun⟩⟩
  | append_singleton hs h ih =>
    rw [trail_append] at hp ⊢
    rw [run_append]
    exact (ih fun q hq => hp q (List.mem_append_left _ hq)).after
      (hp (run e {} hs, h) (List.mem_append_right _ (List.mem_singleton_self _)))

/-! ## The end of a wait -/

theorem Ledger.lookup_eq_none (hcorrelate : Function.Injective e.correlate) {p : Pending} {n : Nat}
    (h : Ledger e p n) {f : Forwarded} (hf : f.correlation = e.correlate (f.slot + 1))
    (hgone : ∀ q ∈ p.entries, q.2 ≠ f.slot) : p.entries.lookup f.correlation = none := by
  cases hk : p.entries.lookup f.correlation with
  | none => rfl
  | some k =>
    have hmem : (f.correlation, k) ∈ p.entries := Pending.mem_of_lookup hk
    have hsame := hcorrelate (hf.symm.trans (h.entry _ k hmem).1)
    exact absurd (by omega) (hgone _ hmem)

/-- A wait that is over ends with the answer, and always so when the answer has overtaken that to
the poke, or with a fault. -/
theorem await_cases {origin : Origin} {f : Forwarded} {d : Timer}
    (hready : m.readyTask e j (.await origin f d) = true) :
    (∃ v, m.pending.slot? f.slot = some (.ok v) ∧
      m.stepTask e j (.await origin f d) = m.conclude j origin f (.ok v)) ∨
    (¬m.Overtaken f ∧ ∃ fault,
      m.stepTask e j (.await origin f d) = m.conclude j origin f (.error fault)) := by
  simp only [readyTask] at hready
  simp only [stepTask]
  cases hv : m.verdict? e j f with
  | some o =>
    rcases answer_or_failure hv with hslot | hfailed
    · cases o with
      | ok v => exact .inl ⟨v, hslot, rfl⟩
      | error fault =>
        refine .inr ⟨fun hover => ?_, fault, rfl⟩
        obtain ⟨v, hanswer⟩ := hover.1
        rw [hslot] at hanswer
        cases hanswer
    · obtain ⟨fault, hfault, rfl⟩ := failure?_eq_some.mp hfailed
      refine .inr ⟨fun hover => ?_, _, rfl⟩
      rw [hover.2] at hfault
      cases hfault
  | none =>
    rw [hv, Option.isSome_none, Bool.false_or] at hready
    refine .inr ⟨fun hover => ?_, _, if_pos hready⟩
    obtain ⟨v, hanswer⟩ := hover.1
    rw [slot?_of_verdict? hv] at hanswer
    cases hanswer

theorem task?_dismiss (m : Machine) (j : Nat) : (m.dismiss j).task? j = none := by
  refine List.lookup_eq_none_iff.mpr fun p hp => ?_
  have hne := (mem_dismiss.mp hp).2
  simpa using hne.symm

theorem tell_over (m : Machine) (j : Nat) (origin : Origin) (o : Outcome) :
    (m.tell j origin o).task? j = none ∧ (m.tell j origin o).books = m.books.next j none := by
  cases origin with
  | caller n => exact ⟨task?_dismiss _ j, m.books_finish j n _ none⟩
  | editor conversation id =>
    refine ⟨task?_dismiss _ j, ?_⟩
    simp only [tell]
    rw [books_dismiss, books_send]

/-- When the wait for an answer is over the request has no entry, and neither has its poke unless
the answer has overtaken that to the poke. Then the entry of the poke is left alone. -/
theorem wait_over (hcorrelate : Function.Injective e.correlate) (hs : m.books.Sound e)
    {origin : Origin} {f : Forwarded} {d : Timer} (ht : m.task? j = some (.await origin f d))
    (hready : m.ready e j = true) :
    (m.step e j).task? j = none ∧
    (m.step e j).pending.entries.lookup f.correlation = none ∧
    (¬m.Overtaken f → (m.step e j).session.state.pokes.ticket? f.poke = none) ∧
    (m.Overtaken f → (m.step e j).session.state.pokes.ticket? f.poke =
      m.session.state.pokes.ticket? f.poke) := by
  rw [ready, ht, Option.any_some] at hready
  have hstep : m.step e j = m.stepTask e j (.await origin f d) := by
    rw [step, ht]
    exact if_pos hready
  obtain ⟨htied, hkey⟩ := hs.genuine (.ofRequest f)
    (.inl ⟨j, _, ⟨mem_of_task? ht, rfl⟩, rfl⟩)
  have hcorrelation := (hkey f rfl).1
  rcases await_cases hready with ⟨v, hslot, hend⟩ | ⟨hnot, fault, hend⟩
  · obtain ⟨hgone, hbooks⟩ := m.tell_over j origin (.ok v)
    have hpending : (m.step e j).pending = m.pending := by
      rw [hstep, hend]
      exact congrArg Books.pending hbooks
    have hsession : (m.step e j).session = m.session := by
      rw [hstep, hend]
      exact congrArg Books.session hbooks
    refine ⟨by rw [hstep, hend]; exact hgone, ?_, fun hover => ?_, fun _ => by rw [hsession]⟩
    · rw [hpending]
      exact hs.ledger.lookup_eq_none hcorrelate hcorrelation (hs.ledger.no_entry hslot)
    · have houtcome : (m.session.state.pokes.slot f.ticket).outcome?.isSome = true := by
        by_contra ho
        exact hover ⟨⟨v, hslot⟩, by simpa using ho⟩
      rw [hsession]
      cases hid : m.session.state.pokes.ticket? f.poke with
      | none => rfl
      | some u =>
        obtain rfl := ((htied f.poke rfl).same f.poke u hid).mp rfl
        exact absurd hid (no_entry_of_outcome hs.tidy houtcome f.poke)
  · obtain ⟨hgone, hbooks⟩ := ({ m with
      pending := m.pending.erase f.correlation
      session := (m.session.forget f.poke).2 } : Machine).tell_over j origin (.error fault)
    have hpending : (m.step e j).pending = m.pending.erase f.correlation := by
      rw [hstep, hend]
      exact congrArg Books.pending hbooks
    have hsession : (m.step e j).session = (m.session.forget f.poke).2 := by
      rw [hstep, hend]
      exact congrArg Books.session hbooks
    refine ⟨by rw [hstep, hend]; exact hgone, ?_, fun _ => ?_, fun hover => absurd hover hnot⟩
    · rw [hpending]
      exact ((fades_erase e _ _ _).ledger hs.ledger).lookup_eq_none hcorrelate hcorrelation
        (hs.ledger.no_entry_erase hcorrelation)
    · rw [hsession]
      exact Session.ticket?_forget f.poke

/-- Let callers wait only for requests that have been handed out. Whenever a wait for the answer to
a request is over, the request has no entry any more; its poke has none either, unless the answer
has overtaken the answer to the poke, whose entry then stays as it is. So when no job has a poke or
a request to see to, and callers have waited for all the requests that have been handed out, no
request has an entry, and a poke has one only if it has been handed out itself or has been left
behind in this way. -/
theorem entries_released (hcorrelate : Function.Injective e.correlate) (hs : List Happening)
    (hproper : ∀ q ∈ trail e {} hs, Proper q.1 q.2) :
    (∀ j origin f d, (run e {} hs).task? j = some (.await origin f d) →
      (run e {} hs).ready e j = true →
      ((run e {} hs).step e j).task? j = none ∧
      ((run e {} hs).step e j).pending.entries.lookup f.correlation = none ∧
      (¬(run e {} hs).Overtaken f →
        ((run e {} hs).step e j).session.state.pokes.ticket? f.poke = none) ∧
      ((run e {} hs).Overtaken f →
        ((run e {} hs).step e j).session.state.pokes.ticket? f.poke =
          (run e {} hs).session.state.pokes.ticket? f.poke)) ∧
    ((∀ q ∈ (run e {} hs).jobs, q.2.care? = none) →
      (∀ f, .request f ∈ (run e {} hs).books.held → f ∈ awaited (trail e {} hs)) →
      (run e {} hs).pending.size = 0 ∧
      ∀ q ∈ (run e {} hs).session.state.pokes.entries, .poke q.2 ∈ (run e {} hs).books.held ∨
        ∃ f, LeftBehind (trail e {} hs) f ∧ f.poke = q.1 ∧ f.ticket = q.2) := by
  have hk := kept_run hproper
  refine ⟨fun j origin f d ht hready => wait_over hcorrelate hk.sound ht hready, ?_⟩
  intro hrest hall
  have hheld {c : Care} (hc : Keeps (trail e {} hs) (run e {} hs) c) :
      ∃ ticket, .poke ticket ∈ (run e {} hs).books.held ∧ c = { ticket } := by
    rcases hc with ⟨i, t, hd, ht⟩ | ⟨r, hr, hc, hfree⟩
    · rw [hrest _ hd.1] at ht
      cases ht
    · cases r with
      | poke ticket => exact ⟨ticket, hr, (Option.some.inj hc).symm⟩
      | subscription id ticket => cases hc
      | request f => exact absurd (hall f hr) (hfree f rfl)
  refine ⟨?_, fun q hq => ?_⟩
  · cases hentries : (run e {} hs).pending.entries with
    | nil => rw [Pending.size, hentries]; rfl
    | cons q qs =>
      obtain ⟨c, f, hc, hf, -⟩ :=
        hk.accounted.requests q (by rw [hentries]; exact List.mem_cons_self)
      obtain ⟨ticket, -, rfl⟩ := hheld hc
      cases hf
  · have hid := Session.lookup_of_mem hk.sound.tidy.sound.ids hq
    rcases hk.accounted.pokes q.1 q.2 hid with ⟨c, hc, hticket⟩ | hleft
    · obtain ⟨ticket, hr, rfl⟩ := hheld hc
      exact .inl (hticket ▸ hr)
    · exact .inr hleft

theorem proper_of_none {hs : List Happening} (h : hs.all (fun h => h.awaits?.isNone) = true) :
    ∀ q ∈ trail e m hs, Proper q.1 q.2 := by
  induction hs generalizing m with
  | nil => exact fun _ hq => absurd hq List.not_mem_nil
  | cons a hs ih =>
    rw [List.all_cons, Bool.and_eq_true] at h
    rintro q hq
    rcases List.mem_cons.mp hq with rfl | hq
    · intro f hf
      rw [Option.isNone_iff_eq_none.mp h.1] at hf
      cases hf
    · exact ih h.2 q hq

theorem await_of_awaited? {f : Forwarded} (h : (m.task? j).bind Task.awaited? = some f) :
    ∃ origin d, m.task? j = some (.await origin f d) := by
  obtain ⟨t, ht, hf⟩ := Option.bind_eq_some_iff.mp h
  cases t with
  | await origin g d =>
    obtain rfl := Option.some.inj hf
    exact ⟨origin, d, ht⟩
  | _ => cases hf

/-- The poke of a request is answered, and then the request: nothing is left behind. -/
theorem entries_released_in_order :
    let e : Surroundings := { settings := { ship := "zod" }, reconnect := {}, limit := 1000
                              correlate := fun n => String.ofList (List.replicate n 'x') }
    let event : EventStream.Event :=
      { id := some "1", data := "\x7b\"id\":1,\"response\":\"poke\",\"ok\":null\x7d" }
    let answer := Json.object [("id", .string "x"), ("result", .string "found")]
    let hs : List Happening := [.call 0 (.request "hover" none), .step 0, .step 0,
      .delivered (.ok ()), .step 0, .step 1, .reached (.ok ()), .step 1, .arrived [.ok event],
      .step 1, .updated answer]
    Function.Injective e.correlate ∧ (∀ q ∈ trail e {} hs, Proper q.1 q.2) ∧
      (∀ q ∈ trail e {} (hs ++ [.step 0]), Proper q.1 q.2) ∧ (run e {} hs).ready e 0 = true ∧
      ((run e {} hs).step e 0).task? 0 = none ∧
      ((run e {} hs).step e 0).pending.entries.lookup "x" = none ∧
      ((run e {} hs).step e 0).session.state.pokes.ticket? 1 = none ∧
      (∀ q ∈ (run e {} (hs ++ [.step 0])).jobs, q.2.care? = none) ∧
      (run e {} (hs ++ [.step 0])).pending.size = 0 := by
  intro e event answer hs
  have hcorrelate : Function.Injective e.correlate := by
    intro a b h
    have hlength : (String.ofList (List.replicate a 'x')).length =
        (String.ofList (List.replicate b 'x')).length := congrArg String.length h
    simpa using hlength
  have hproper : ∀ q ∈ trail e {} hs, Proper q.1 q.2 := proper_of_none (by decide +kernel)
  have hproper' : ∀ q ∈ trail e {} (hs ++ [.step 0]), Proper q.1 q.2 :=
    proper_of_none (by decide +kernel)
  have hready : (run e {} hs).ready e 0 = true := by decide +kernel
  obtain ⟨origin, d, ht⟩ := await_of_awaited? (m := run e {} hs) (j := 0)
    (f := ⟨"x", "hover", 0, 1, 0⟩) (by decide +kernel)
  have hanswered : ¬(run e {} hs).Overtaken ⟨"x", "hover", 0, 1, 0⟩ := by
    rintro ⟨-, hnone⟩
    have hsome : ((run e {} hs).session.state.pokes.slot 0).outcome?.isSome = true := by
      decide +kernel
    rw [hnone] at hsome
    cases hsome
  obtain ⟨hover, hentry, hpoke, -⟩ :=
    (entries_released hcorrelate hs hproper).1 0 origin _ d ht hready
  have hidle : (run e {} (hs ++ [.step 0])).jobs.all (fun q => q.2.care?.isNone) = true := by
    decide +kernel
  have hrest : ∀ q ∈ (run e {} (hs ++ [.step 0])).jobs, q.2.care? = none := fun q hq =>
    Option.isNone_iff_eq_none.mp (List.all_eq_true.mp hidle q hq)
  have hnone : (run e {} (hs ++ [.step 0])).books.held.length = 0 := by decide +kernel
  have hwaits (f : Forwarded) (hf : .request f ∈ (run e {} (hs ++ [.step 0])).books.held) :
      f ∈ awaited (trail e {} (hs ++ [.step 0])) :=
    absurd (List.length_pos_of_mem hf) (by rw [hnone]; exact Nat.lt_irrefl 0)
  have hatRest := (entries_released hcorrelate (hs ++ [.step 0]) hproper').2
  exact ⟨hcorrelate, hproper, hproper', hready, hover, hentry, hpoke hanswered, hrest,
    (hatRest hrest hwaits).1⟩

/-- A request that is answered before its poke: the wait ends with the answer, no job has anything
to see to any more, and the poke still has its entry. -/
theorem overtaken_poke_stays :
    let e : Surroundings :=
      { settings := { ship := "zod" }, reconnect := {}, limit := 1000, correlate := toString }
    let answer := Json.object [("id", .string "1"), ("result", .string "found")]
    let m := ({} : Machine).run e [.call 0 (.request "hover" none), .step 0, .step 0,
      .delivered (.ok ()), .step 0, .updated answer, .step 0]
    m.log.filterMap Output.value? = [(0, .string "found")] ∧
      (∀ q ∈ m.jobs, q.2.care? = none) ∧ m.books.held.length = 0 ∧
      m.pending.size = 0 ∧ m.session.state.pokes.size = 1 := by
  intro e answer m
  have hidle : m.jobs.all (fun q => q.2.care?.isNone) = true := by decide +kernel
  exact ⟨by decide +kernel,
    fun q hq => Option.isNone_iff_eq_none.mp (List.all_eq_true.mp hidle q hq), by decide +kernel,
    by decide +kernel, by decide +kernel⟩

end Machine

end ShipBridge.Relay
