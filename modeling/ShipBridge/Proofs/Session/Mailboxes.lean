import ShipBridge.Proofs.Session.Owners

/-!
# What comes into one mailbox

A subscription puts its notices into the mailbox of its ticket, one after the other, until it has
ended; then the mailbox stays as it is. This goes for every action but the one by which the holder
of the ticket lets go of it. A call for a subscription that fails ends what it has entered.
-/

namespace ShipBridge

namespace Session

open Wire

def Notice.diff? : Notice → Option Json
  | .diff json => some json
  | _ => none

namespace Subscriptions

variable {s : Subscriptions} {i t : Nat} {ns : List Notice}

/-- The subscription `i` is open and listened to, or has ended; either way these are the notices in
its mailbox. -/
def Yields (s : Subscriptions) (i t : Nat) (ns : List Notice) : Prop :=
  (∃ js, ns = js.map .diff ∧ s.Feeds i t js) ∨ s.Ended i t ns

theorem Yields.notices (h : s.Yields i t ns) : (s.mailbox t).notices = ns := by
  rcases h with ⟨js, rfl, hf⟩ | he
  · rw [hf.mailbox]
  · rw [he.mailbox]

theorem Yields.ended (h : s.Yields i t ns) (hd : (s.mailbox t).attached = false) :
    s.Ended i t ns := by
  rcases h with ⟨js, -, hf⟩ | he
  · rw [hf.mailbox] at hd
    cases hd
  · exact he

theorem Feeds.remove {js : List Json} (h : s.Feeds i t js) (hs : s.Sound) :
    (s.apply (.remove i)).Ended i t (js.map .diff) := by
  have hclose := h.close_self hs none
  rwa [← remove_snd, Option.toList_none, List.append_nil] at hclose

theorem Yields.remove (h : s.Yields i t ns) (hs : s.Sound) :
    (s.apply (.remove i)).Ended i t ns := by
  rcases h with ⟨js, rfl, hf⟩ | he
  · exact hf.remove hs
  · exact he.apply fun h => by cases h

/-- Notices are added to the mailbox at most, unless its holder lets go of it. -/
theorem Yields.apply (h : s.Yields i t ns) (hs : s.Sound) {op : Op} (hr : op ≠ .register i)
    (ha : op ≠ .abandon t) : ∃ more, (s.apply op).Yields i t (ns ++ more) := by
  rcases h with ⟨js, rfl, hf⟩ | he
  · cases hj : op.diff? i with
    | some j => exact ⟨[.diff j], .inl ⟨js ++ [j], by simp, hf.apply_of_diff hs hj⟩⟩
    | none =>
      cases hx : op.last? i js.length with
      | some x => exact ⟨[x], .inr (hf.apply_of_last hs hx)⟩
      | none =>
        refine ⟨[], ?_⟩
        rw [List.append_nil]
        by_cases hm : op = .remove i
        · exact .inr (hm ▸ hf.remove hs)
        · exact .inl ⟨js, rfl, hf.apply_of_stay hs hj hx hr hm ha⟩
  · exact ⟨[], .inr ((List.append_nil ns).symm ▸ he.apply hr)⟩

end Subscriptions

variable {n : Nat} {s t : Session} {j id ticket : Nat} {ns : List Notice}

theorem change?_enter {a : Action} {r : Request} (h : s.change? n a = some (.enter id r)) :
    id = s.state.nextId := by
  cases a with
  | call owner r' =>
    simp only [change?] at h
    split_ifs at h
    exact (Change.enter.inj (Option.some.inj h)).1.symm
  | _ => simp [change?] at h

theorem change?_dropSubscription {a : Action}
    (h : s.change? n a = some (.dropSubscription ticket)) : a = .dropSubscription ticket := by
  cases a <;> simp_all [change?]

theorem Change.eq_enter {c : Change} {i : Nat}
    (h : c.subscriptionOp? = some (.register i)) : ∃ r, c = .enter i r := by
  unfold Change.subscriptionOp? at h
  split at h <;> cases h
  exact ⟨_, rfl⟩

theorem Change.eq_dropSubscription {c : Change}
    (h : c.subscriptionOp? = some (.abandon ticket)) : c = .dropSubscription ticket := by
  unfold Change.subscriptionOp? at h
  split at h <;> cases h
  rfl

/-- What an action does to the table of subscriptions is one operation, or none. -/
theorem act_subscriptions (a : Action) :
    (s.act n a).state.subscriptions = s.state.subscriptions ∨
    ∃ op, (s.act n a).state.subscriptions = s.state.subscriptions.apply op ∧
      (∀ i, op = .register i → i = s.state.nextId) ∧
      ∀ u, op = .abandon u → a = .dropSubscription u := by
  have htables := (Prod.mk.inj (act_tables (n := n) (s := s) a)).2
  cases hc : s.change? n a with
  | none =>
    rw [hc] at htables
    exact .inl htables
  | some c =>
    rw [hc] at htables
    cases hop : c.subscriptionOp? with
    | none =>
      refine .inl (htables.trans ?_)
      simp [State.change, Change.onSubscriptions, hop]
    | some op =>
      refine .inr ⟨op, htables.trans ?_, ?_, ?_⟩
      · simp [State.change, Change.onSubscriptions, hop]
      · rintro i rfl
        obtain ⟨r, rfl⟩ := Change.eq_enter hop
        exact change?_enter hc
      · rintro u rfl
        obtain rfl := Change.eq_dropSubscription hop
        exact change?_dropSubscription hc

theorem Subscriptions.Sound.act (h : s.state.subscriptions.Sound) (a : Action) :
    (s.act n a).state.subscriptions.Sound := by
  rcases act_subscriptions (n := n) (s := s) a with hsame | ⟨op, hop, -⟩
  · rwa [hsame]
  · rw [hop]
    exact h.apply op

/-! ## Tickets -/

/-- The diffs that have come into the mailbox of a ticket. -/
def mail (s : Session) (ticket : Nat) : List Json :=
  (s.state.subscriptions.mailbox ticket).notices.filterMap Notice.diff?

/-- The holder of a ticket gets these notices of the subscription `id`, or has got them if it has
ended. -/
structure Holds (s : Session) (id ticket : Nat) (ns : List Notice) : Prop where
  id_lt : id < s.state.nextId
  yields : s.state.subscriptions.Yields id ticket ns

/-- The subscription that belonged to a ticket has ended. -/
def Lapsed (s : Session) (ticket : Nat) : Prop :=
  ∃ id ns, id < s.state.nextId ∧ s.state.subscriptions.Ended id ticket ns

theorem Lapsed.ticket_lt (h : s.Lapsed ticket) :
    ticket < s.state.subscriptions.mailboxes.length := by
  obtain ⟨id, ns, -, he⟩ := h
  exact he.loose.lt

theorem Lapsed.free (h : s.Lapsed ticket) {p : Nat × Entry}
    (hp : p ∈ s.state.subscriptions.entries) : p.2.ticket ≠ ticket := by
  obtain ⟨id, ns, -, he⟩ := h
  exact he.loose.free p hp

theorem Lapsed.act (h : s.Lapsed ticket) (a : Action) :
    (s.act n a).Lapsed ticket ∧ (s.act n a).mail ticket = s.mail ticket := by
  obtain ⟨id, ns, hid, he⟩ := h
  have hid' : id < (s.act n a).state.nextId := Nat.lt_of_lt_of_le hid (nextId_le_act a)
  rcases act_subscriptions (n := n) (s := s) a with hsame | ⟨op, hop, hnew, -⟩
  · exact ⟨⟨id, ns, hid', hsame ▸ he⟩, by rw [mail, hsame, mail]⟩
  · have hr : op ≠ .register id := fun hr => Nat.ne_of_lt hid (hnew id hr)
    have he' := he.apply hr
    refine ⟨⟨id, ns, hid', hop ▸ he'⟩, ?_⟩
    rw [mail, hop, he'.mailbox, mail, he.mailbox]

theorem Holds.mail (h : s.Holds id ticket ns) : s.mail ticket = ns.filterMap Notice.diff? := by
  rw [Session.mail, h.yields.notices]

theorem Holds.act (h : s.Holds id ticket ns) (hs : s.state.subscriptions.Sound) {a : Action}
    (ha : a ≠ .dropSubscription ticket) : ∃ more, (s.act n a).Holds id ticket (ns ++ more) := by
  have hid : id < (s.act n a).state.nextId := Nat.lt_of_lt_of_le h.id_lt (nextId_le_act a)
  rcases act_subscriptions (n := n) (s := s) a with hsame | ⟨op, hop, hnew, hdrop⟩
  · exact ⟨[], hid, by rw [hsame, List.append_nil]; exact h.yields⟩
  · have hr : op ≠ .register id := fun hr => Nat.ne_of_lt h.id_lt (hnew id hr)
    obtain ⟨more, hmore⟩ := h.yields.apply hs hr fun hop => ha (hdrop ticket hop)
    exact ⟨more, hid, hop ▸ hmore⟩

theorem Holds.lapsed (h : s.Holds id ticket ns)
    (hd : (s.state.subscriptions.mailbox ticket).attached = false) : s.Lapsed ticket :=
  ⟨id, ns, h.id_lt, h.yields.ended hd⟩

/-! ## Calls for a subscription -/

theorem holds_of_call {ship app path : String} {receipt : Receipt}
    (h : s.call? j (.subscribe ship app path) = some (receipt, t)) :
    receipt = .subscription s.state.nextId s.state.subscriptions.mailboxes.length ∧
      t.Holds s.state.nextId s.state.subscriptions.mailboxes.length [] := by
  obtain ⟨-, hc, hlt⟩ := call?_eq_some (n := 0) h
  simp only [call?, State.register?, hc, Bool.false_eq_true, if_false] at h
  obtain ⟨rfl, rfl⟩ := Prod.mk.inj (Option.some.inj h)
  have hfeeds := s.state.subscriptions.feeds_register s.state.nextId
  rw [Subscriptions.register_fst] at hfeeds
  exact ⟨by rw [Subscriptions.register_fst]; rfl, hlt, .inl ⟨[], rfl, hfeeds⟩⟩

theorem errandsOf_of_send {b : List Command} (h : s.proceed? = some (.send b, t)) (i : Nat) :
    t.line.errandsOf i = s.line.errandsOf i := by
  have hact : t = s.act 0 .proceed := by simp [act, h]
  have herrands := errands_act (n := 0) (s := s) .proceed
  rw [leaves?_of_send h, ← hact] at herrands
  simp only [joins?, Option.toList_none, List.nil_append, List.append_nil] at herrands
  rw [Line.errandsOf, herrands, Line.errandsOf]

/-- A call for a subscription that fails ends what it has entered. -/
theorem Holds.lapsed_of_passes (h : s.Holds id ticket ns) (hs : s.state.subscriptions.Sound)
    {f : Fault} {ship app path : String} (hp : s.Passes j (.error f) t)
    (hl : s.line.errandsOf j = [⟨j, .command (.subscribe id ship app path)⟩]) :
    t.Lapsed ticket ∧ t.mail ticket = s.mail ticket := by
  obtain ⟨b, x, ht, hby, hleaves, hjoins, hwithdrawn⟩ := hp.leaves 0
  have herrands := errandsOf_own (n := 0) hby
  rw [hleaves, hl] at herrands
  obtain rfl : x = _ := (List.cons.inj herrands).1
  obtain ⟨u, hu, hstate⟩ := hwithdrawn f _ rfl rfl
  have hended : t.state.subscriptions.Ended id ticket ns := by
    rw [hstate]
    change (u.subscriptions.apply (.remove id)).Ended id ticket ns
    rw [(Prod.mk.inj hu).2]
    exact h.yields.remove hs
  have hid : id < t.state.nextId := ht ▸ Nat.lt_of_lt_of_le h.id_lt (nextId_le_act b)
  exact ⟨⟨id, ns, hid, hended⟩, by rw [h.mail, Session.mail, hended.mailbox]⟩

end Session

end ShipBridge
