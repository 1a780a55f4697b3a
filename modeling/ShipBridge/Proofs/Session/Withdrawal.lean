import ShipBridge.Proofs.Session.Acknowledgment
import ShipBridge.Proofs.Session.Streams
import ShipBridge.Proofs.Session.Outcomes
import ShipBridge.Proofs.Session.Tabular

/-!
# A call that fails

A call registers before its batch is built and takes that back when the batch cannot be delivered,
or when the session has been closed by the time its turn comes. Whatever happens meanwhile, the
tables are then what the other changes would have made of them without the call, and the
acknowledged count is what it was when the batch was built. What the call has used up is an id and a
ticket.
-/

namespace ShipBridge

open Wire

namespace Session

structure State.Absent (s : State) (id : Nat) : Prop where
  poke : s.pokes.ticket? id = none
  subscription : s.subscriptions.entry? id = none

def Receipt.id : Receipt → Nat
  | .poke id _ | .subscription id _ | .bare id => id

/-- The state after a call has been given its id and its ticket, without an entry for them. -/
def State.spent (s : State) : Receipt → State
  | .poke .. => { s with
    nextId := s.nextId + 1
    pokes := { s.pokes with slots := s.pokes.slots ++ [.discarded] } }
  | .subscription .. => { s with
    nextId := s.nextId + 1
    subscriptions := { s.subscriptions with
      mailboxes := s.subscriptions.mailboxes ++ [{ attached := false }] } }
  | .bare _ => { s with nextId := s.nextId + 1 }

/-- The tables of the second state are those of the first without what a call has entered. -/
inductive Without : Receipt → State → State → Prop
  | poke {id t : Nat} {s u : State}
    (pokes : Table.Lacks (fun t => t) id t s.pokes.table u.pokes.table)
    (subscriptions : s.subscriptions = u.subscriptions) : Without (.poke id t) s u
  | subscription {id t : Nat} {s u : State} (pokes : s.pokes = u.pokes)
    (subscriptions : Table.Lacks Entry.ticket id t s.subscriptions.table u.subscriptions.table) :
    Without (.subscription id t) s u
  | bare {id : Nat} {s u : State} (tables : s.tables = u.tables) : Without (.bare id) s u

/-- The tables of the two states are the same, but for the slot or the mailbox of a call's
ticket. -/
structure SameBeside (receipt : Receipt) (s u : State) : Prop where
  pokes : s.pokes.entries = u.pokes.entries
  subscriptions : s.subscriptions.entries = u.subscriptions.entries
  slots : ∀ k, receipt ≠ .poke receipt.id k → s.pokes.slots[k]? = u.pokes.slots[k]?
  mailboxes : ∀ k, receipt ≠ .subscription receipt.id k →
    s.subscriptions.mailboxes[k]? = u.subscriptions.mailboxes[k]?

def State.receipt (s : State) : Request → Receipt
  | .poke .. => .poke s.nextId s.pokes.slots.length
  | .subscribe .. => .subscription s.nextId s.subscriptions.mailboxes.length
  | .unsubscribe _ => .bare s.nextId

variable {n : Nat} {s t : Session}

/-! ## Ids that have not been given -/

theorem State.Absent.change {s : State} {id : Nat} (h : s.Absent id) {c : Change}
    (hc : ∀ r, c ≠ .enter id r) : (s.change c).Absent id where
  poke := by
    change (c.onPokes s.pokes).ticket? id = none
    unfold Change.onPokes
    cases hop : c.pokeOp? with
    | none => exact h.poke
    | some op =>
      refine Pokes.ticket?_apply_of_none h.poke ?_
      rintro rfl
      obtain ⟨r, hr⟩ := register_of_pokeOp? hop
      exact hc r hr
  subscription := by
    change Subscriptions.entry? (c.onSubscriptions s.subscriptions) id = none
    unfold Change.onSubscriptions
    cases hop : c.subscriptionOp? with
    | none => exact h.subscription
    | some op =>
      refine Subscriptions.entry?_apply_of_none h.subscription ?_
      rintro rfl
      obtain ⟨r, hr⟩ := register_of_subscriptionOp? hop
      exact hc r hr

theorem State.Absent.changes {s : State} {id : Nat} (h : s.Absent id) {cs : List Change}
    (hcs : ∀ r, .enter id r ∉ cs) : (cs.foldl State.change s).Absent id := by
  induction cs generalizing s with
  | nil => exact h
  | cons c cs ih =>
    have hc (r : Request) : c ≠ .enter id r := fun hr => hcs r (hr ▸ List.mem_cons_self)
    exact ih (h.change hc) fun r hr => hcs r (List.mem_cons_of_mem c hr)

theorem State.Absent.of_tables {s t : State} {id : Nat} (h : t.Absent id)
    (ht : s.tables = t.tables) : s.Absent id := by
  obtain ⟨hp, hs⟩ := Prod.mk.inj ht
  exact ⟨hp ▸ h.poke, hs ▸ h.subscription⟩

theorem lt_nextId_of_enter {id : Nat} {r : Request} {as : List Action}
    (h : .enter id r ∈ changes n s as) : id < (run n s as).state.nextId := by
  induction as generalizing s with
  | nil => cases h
  | cons a as ih =>
    rw [changes_cons, List.mem_append] at h
    rcases h with h | h
    · have hc : s.change? n a = some (.enter id r) := Option.mem_toList.mp h
      have hid : s.state.nextId = id ∧ s.allotted? a = some s.state.nextId := by
        cases a <;> simp_all [change?, allotted?]
      have hnext := act_nextId (n := n) (s := s) a
      have hle := nextId_le_run (n := n) (s := s.act n a) as
      rw [hid.2, Option.toList_some, List.length_singleton] at hnext
      change id < (run n (s.act n a) as).state.nextId
      omega
    · exact ih h

/-- In every session that can be reached the tables hold no id that has not been given. -/
theorem absent_of_le {as : List Action} {id : Nat} (h : (run n {} as).state.nextId ≤ id) :
    (run n {} as).state.Absent id := by
  have hstart : ({} : Session).state.Absent id := ⟨rfl, rfl⟩
  refine (hstart.changes fun r hr => ?_).of_tables (run_tables as)
  have hlt := lt_nextId_of_enter hr
  omega

/-! ## Beside the call's own entry -/

theorem Without.change {receipt : Receipt} {s u : State} (h : Without receipt s u) {c : Change}
    (hc : ∀ r, c ≠ .enter receipt.id r) : Without receipt (s.change c) (u.change c) := by
  cases h with
  | @poke id t _ _ hp hs =>
    refine .poke ?_ (congrArg c.onSubscriptions hs)
    change Table.Lacks _ id t (c.onPokes s.pokes).table (c.onPokes u.pokes).table
    unfold Change.onPokes
    cases hop : c.pokeOp? with
    | none => exact hp
    | some op =>
      rw [Option.elim, Option.elim, Pokes.table_apply, Pokes.table_apply]
      refine hp.apply op.keeps_tabular fun hid => ?_
      cases op <;> simp only [Pokes.Op.tabular, Table.Op.entered?, reduceCtorEq] at hid
      obtain rfl := Option.some.inj hid
      obtain ⟨r, hr⟩ := register_of_pokeOp? hop
      exact hc r hr
  | @subscription id t _ _ hp hs =>
    refine .subscription (congrArg c.onPokes hp) ?_
    change Table.Lacks _ id t (c.onSubscriptions s.subscriptions).table
      (c.onSubscriptions u.subscriptions).table
    unfold Change.onSubscriptions
    cases hop : c.subscriptionOp? with
    | none => exact hs
    | some op =>
      rw [Option.elim, Option.elim, Subscriptions.table_apply, Subscriptions.table_apply]
      refine hs.apply op.keeps_tabular fun hid => ?_
      cases op <;> simp only [Subscriptions.Op.tabular, Table.Op.entered?, reduceCtorEq] at hid
      obtain rfl := Option.some.inj hid
      obtain ⟨r, hr⟩ := register_of_subscriptionOp? hop
      exact hc r hr
  | bare h => exact .bare (State.change_tables h c)

theorem Without.of_tables {receipt : Receipt} {s s' u : State} (h : Without receipt s u)
    (ht : s'.tables = s.tables) : Without receipt s' u := by
  obtain ⟨hp, hs⟩ := Prod.mk.inj ht
  cases h with
  | poke p q => exact .poke (hp ▸ p) (hs.trans q)
  | subscription p q => exact .subscription (hp.trans p) (hs ▸ q)
  | bare h => exact .bare (ht.trans h)

theorem Without.changes {receipt : Receipt} {s u : State} (h : Without receipt s u)
    {cs : List Change} (hcs : ∀ r, .enter receipt.id r ∉ cs) :
    Without receipt (cs.foldl State.change s) (cs.foldl State.change u) := by
  induction cs generalizing s u with
  | nil => exact h
  | cons c cs ih =>
    have hc (r : Request) : c ≠ .enter receipt.id r := fun hr => hcs r (hr ▸ List.mem_cons_self)
    exact ih (h.change hc) fun r hr => hcs r (List.mem_cons_of_mem c hr)

/-! ## The call -/

@[simp] theorem State.id_receipt (s : State) (r : Request) : (s.receipt r).id = s.nextId := by
  cases r <;> rfl

theorem call?_of_open (h : s.state.isClosed = false) (owner : Nat) (r : Request) :
    s.call? owner r = some (s.state.receipt r, { s with
      state := { s.state.change (.enter s.state.nextId r) with nextId := s.state.nextId + 1 }
      line := s.line.push ⟨owner, .command (r.command s.state.nextId)⟩ }) := by
  cases r <;> simp only [call?, State.register?, h, State.allocate, Bool.false_eq_true, if_false,
    Pokes.register_fst, Subscriptions.register_fst] <;> rfl

theorem without_enter {s : State} (hs : s.Sound) (ha : s.Absent s.nextId) (r : Request) :
    Without (s.receipt r) (s.change (.enter s.nextId r)) (s.spent (s.receipt r)) := by
  cases r with
  | poke ship app mark json =>
    refine .poke ?_ rfl
    have hclose : s.pokes.close s.nextId .discarded = s.pokes := by
      rw [Pokes.close, ha.poke]
      rfl
    have hp : (s.change (.enter s.nextId (.poke ship app mark json))).pokes =
        (s.pokes.register s.nextId).2 := rfl
    rw [hp, Pokes.register_snd, hclose]
    exact Table.lacks_cons hs.pokes ha.poke rfl _ _
  | subscribe ship app path =>
    refine .subscription rfl ?_
    have hclose : s.subscriptions.close s.nextId none = s.subscriptions := by
      rw [Subscriptions.close, ha.subscription]
      rfl
    have hp : (s.change (.enter s.nextId (.subscribe ship app path))).subscriptions =
        (s.subscriptions.register s.nextId).2 := rfl
    rw [hp, Subscriptions.register_snd, hclose]
    exact Table.lacks_cons hs.subscriptions ha.subscription rfl _ _
  | unsubscribe subscription => exact .bare rfl

/-- What is entered and at once taken back leaves an id and a ticket used up. -/
theorem withdraw_enter {s : State} (ha : s.Absent s.nextId) (r : Request) :
    State.withdraw { s.change (.enter s.nextId r) with nextId := s.nextId + 1 }
      (r.command s.nextId) = s.spent (s.receipt r) := by
  cases r with
  | poke ship app mark json =>
    have hclose : s.pokes.close s.nextId .discarded = s.pokes := by
      rw [Pokes.close, ha.poke]
      rfl
    have hp : ((s.pokes.register s.nextId).2.remove s.nextId).2 =
        { s.pokes with slots := s.pokes.slots ++ [.discarded] } := by
      refine Pokes.table_inj (((s.pokes.register s.nextId).2.table_apply
        (.remove s.nextId)).trans ?_)
      rw [Pokes.register_snd, hclose]
      exact Table.amend_cons_self (Pokes.takeOut .discarded) ha.poke rfl .waiting rfl
    exact congrArg (fun p => { s with nextId := s.nextId + 1, pokes := p }) hp
  | subscribe ship app path =>
    have hclose : s.subscriptions.close s.nextId none = s.subscriptions := by
      rw [Subscriptions.close, ha.subscription]
      rfl
    have hp : ((s.subscriptions.register s.nextId).2.remove s.nextId).2 =
        { s.subscriptions with
          mailboxes := s.subscriptions.mailboxes ++ [{ attached := false }] } := by
      refine Subscriptions.table_inj ((Subscriptions.table_apply (.remove s.nextId)).trans ?_)
      rw [Subscriptions.register_snd, hclose]
      exact Table.amend_cons_self Subscriptions.removal ha.subscription rfl {} rfl
    exact congrArg (fun t => { s with nextId := s.nextId + 1, subscriptions := t }) hp
  | unsubscribe subscription => rfl

/-- Taking back what a call has entered leaves the tables without it. -/
theorem Without.withdraw {s₀ s u : State} {r : Request} (h : Without (s₀.receipt r) s u) :
    SameBeside (s₀.receipt r) (s.change (.withdraw (r.command s₀.nextId))) u := by
  cases r with
  | poke ship app mark json =>
    rcases h with ⟨hp, hs⟩
    have hout := hp.take_out (f := Pokes.takeOut .discarded) .discarded fun _ _ => rfl
    have htable : (s.pokes.remove s₀.nextId).2.table = _ := s.pokes.table_apply (.remove s₀.nextId)
    rw [Pokes.Op.tabular, Table.apply] at htable
    rw [← htable] at hout
    refine ⟨hout.1, congrArg Subscriptions.entries hs, fun k hk => hout.2 k ?_, fun k _ => ?_⟩
    · rintro rfl
      exact hk rfl
    · exact congrArg (fun t : Subscriptions => t.mailboxes[k]?) hs
  | subscribe ship app path =>
    rcases h with _ | ⟨hp, hs⟩
    have hout := hs.take_out (f := Subscriptions.removal) { attached := false } fun _ _ => rfl
    have htable : (s.subscriptions.remove s₀.nextId).2.table = _ :=
      Subscriptions.table_apply (.remove s₀.nextId)
    rw [Subscriptions.Op.tabular, Table.apply] at htable
    rw [← htable] at hout
    refine ⟨congrArg Pokes.entries hp, hout.1, fun k _ => ?_, fun k hk => hout.2 k ?_⟩
    · exact congrArg (fun p : Pokes => p.slots[k]?) hp
    · rintro rfl
      exact hk rfl
  | unsubscribe subscription =>
    rcases h with _ | _ | h
    obtain ⟨hp, hs⟩ := Prod.mk.inj h
    refine ⟨congrArg Pokes.entries hp, congrArg Subscriptions.entries hs, fun k _ => ?_,
      fun k _ => ?_⟩
    · exact congrArg (fun p : Pokes => p.slots[k]?) hp
    · exact congrArg (fun t : Subscriptions => t.mailboxes[k]?) hs

/-! ## The batch of the call -/

theorem endedId?_notMem {as : List Action} {a : Action} {id : Nat}
    (h : (run n {} as).endedId? a = some id) : id ∉ endedIds (trail n {} as) := by
  intro hm
  have hn := numbered_initial.run (n := n) as
  rw [List.nil_append] at hn
  have hids := ids_act (n := n) (s := run n {} as) a
  rw [h] at hids
  have hmem : id ∈ (run n {} as).line.ids ++ ((run n {} as).allotted? a).toList :=
    hids ▸ List.mem_append_left _ (Option.mem_toList.mpr rfl)
  rcases List.mem_append.mp hmem with hline | hnew
  · exact Nat.lt_irrefl id ((List.pairwise_append.mp hn.ascending).2.2 id hm id hline)
  · have hlt := hn.below id (List.mem_append_left _ hm)
    have hid : id = (run n {} as).state.nextId := by
      cases a <;> simp_all [allotted?]
    omega

theorem endedId?_settle {e : Errand} {b : List Command} {d : Option Advance} {w : List Errand}
    (hl : s.line = .sending e b d w) (x : Answer) : s.endedId? (.settle x) = e.id? := by
  cases hf : e.freight <;> simp [endedId?, concluded?, hl, hf, Freight.command?, Errand.id?]

/-- As long as its call has not ended, a batch stays on its way and the acknowledged count where it
is. -/
theorem sending_lasts {e : Errand} {b : List Command} {d : Option Advance} {w : List Errand}
    (hl : s.line = .sending e b d w) {id : Nat} (he : e.id? = some id) {as : List Action}
    (h : id ∉ endedIds (trail n s as)) : (∃ w', (run n s as).line = .sending e b d w') ∧
      (run n s as).state.acknowledged = s.state.acknowledged := by
  induction as generalizing s w with
  | nil => exact ⟨⟨w, hl⟩, rfl⟩
  | cons a as ih =>
    rw [trail, endedIds_cons, List.mem_append, not_or] at h
    have ha (x : Answer) : a ≠ .settle x := by
      rintro rfl
      rw [endedId?_settle hl, he] at h
      exact h.1 (Option.mem_toList.mpr rfl)
    obtain ⟨w', hline⟩ := act_line_of_sending (n := n) hl ha
    have hrest := ih hline h.2
    refine ⟨hrest.1, hrest.2.trans ?_⟩
    by_cases hp : a = .proceed
    · subst hp
      rw [act_proceed_of_not_granted (by rw [hl]; rfl)]
    · exact (act_keeps (n := n) (s := s) a).acknowledged hp ha

theorem Freight.eq_of_command? {f : Freight} {c : Command} (h : f.command? = some c) :
    f = .command c := by
  cases f with
  | command x => exact congrArg Freight.command (Option.some.inj h)
  | acknowledgment => cases h

theorem failed?_cases {a : Action} {c : Command} (h : s.failed? a = some c) :
    (∃ e w, a = .proceed ∧ s.line = .granted e w ∧ s.state.isClosed = true ∧
      e.freight = .command c) ∨
    ∃ e b d w f, a = .settle (.error f) ∧ s.line = .sending e b d w ∧ e.freight = .command c := by
  obtain ⟨f, hf⟩ := (endedId?_of_failed h).2
  cases a with
  | proceed =>
    cases hl : s.line with
    | granted e w =>
      simp only [concluded?, hl] at hf
      split_ifs at hf with hc
      obtain ⟨c', hc', heq⟩ := Option.map_eq_some_iff.mp hf
      obtain rfl := (Prod.mk.inj heq).1
      exact .inl ⟨e, w, rfl, rfl, hc, Freight.eq_of_command? hc'⟩
    | _ => simp [concluded?, hl] at hf
  | settle x =>
    cases hl : s.line with
    | sending e b d w =>
      simp only [concluded?, hl] at hf
      obtain ⟨c', hc', heq⟩ := Option.map_eq_some_iff.mp hf
      obtain ⟨rfl, rfl⟩ := Prod.mk.inj heq
      exact .inr ⟨e, b, d, w, f, rfl, rfl, Freight.eq_of_command? hc'⟩
    | _ => simp [concluded?, hl] at hf
  | _ => cases hf

theorem id?_of_mem_cargo {s : State} {e : Errand} {c : Command} {id : Nat}
    (hc : c ∈ s.cargo e.freight) (hid : c.id? = some id) : e.id? = some id := by
  rw [State.cargo, List.mem_append] at hc
  rcases hc with hc | hc
  · obtain ⟨a, -, rfl⟩ := Option.map_eq_some_iff.mp (Option.mem_toList.mp hc)
    cases hid
  · rw [Errand.id?, Option.mem_toList.mp hc]
    exact hid

theorem Line.pass_ne_sending (v w : List Errand) (e : Errand) (b : List Command)
    (d : Option Advance) : Line.pass v ≠ .sending e b d w := by
  cases v <;> simp [Line.pass]

theorem sending_of_act {e : Errand} {b : List Command} {d : Option Advance} {w : List Errand}
    {a : Action} (h : (s.act n a).line = .sending e b d w) :
    (∃ w', s.line = .sending e b d w') ∨ (a = .proceed ∧
      s.demand? .proceed = some (.put b) ∧ b = s.state.cargo e.freight) := by
  by_cases hp : a = .proceed
  · subst hp
    cases hl : s.line with
    | granted f v =>
      cases hc : s.state.isClosed with
      | true =>
        rw [act_proceed_of_closed hl hc] at h
        exact absurd h (Line.pass_ne_sending v w e b d)
      | false =>
        cases hi : s.state.isIdle f.freight with
        | true =>
          rw [act_proceed_of_idle hl hc hi] at h
          exact absurd h (Line.pass_ne_sending v w e b d)
        | false =>
          rw [act_proceed_of_busy hl hc hi] at h
          obtain ⟨rfl, rfl, -, -⟩ := Line.sending.inj h
          exact .inr ⟨rfl, by simp [demand?, proceed?_of_busy hl hc hi], rfl⟩
    | _ =>
      rw [act_proceed_of_not_granted (by rw [hl]; rfl), hl] at h
      cases h <;> exact .inl ⟨_, rfl⟩
  · by_cases hs : ∃ x, a = .settle x
    · obtain ⟨x, rfl⟩ := hs
      cases hl : s.line with
      | sending f c g v =>
        rw [act_settle_line hl] at h
        exact absurd h (Line.pass_ne_sending v w e b d)
      | _ =>
        rw [act_settle_of_not_sending x (by rw [hl]; rfl), hl] at h
        cases h
    · rcases act_line_of_not_moved (n := n) (s := s) hp fun x hx => hs ⟨x, hx⟩ with hl | ⟨f, hl⟩
      · exact .inl ⟨w, hl ▸ h⟩
      · exact .inl (Line.push_eq_sending (hl ▸ h))

theorem sending_of_run {e : Errand} {b : List Command} {d : Option Advance} {w : List Errand}
    {as : List Action} (h : (run n s as).line = .sending e b d w) :
    (∃ w', s.line = .sending e b d w') ∨ ∃ xs ys, as = xs ++ .proceed :: ys ∧
      (run n s xs).demand? .proceed = some (.put b) ∧
      b = (run n s xs).state.cargo e.freight := by
  induction as using List.reverseRecOn generalizing w with
  | nil => exact .inl ⟨w, h⟩
  | append_singleton as a ih =>
    rw [run_concat] at h
    rcases sending_of_act h with ⟨w', hw⟩ | ⟨rfl, hput, hb⟩
    · rcases ih hw with hl | ⟨xs, ys, rfl, hput, hb⟩
      · exact .inl hl
      · exact .inr ⟨xs, ys ++ [a], by simp, hput, hb⟩
    · exact .inr ⟨as, [], rfl, hput, hb⟩

theorem acknowledged_settle_error {e : Errand} {b : List Command} {d : Option Advance}
    {w : List Errand} (hl : s.line = .sending e b d w) (f : Fault) :
    (s.act n (.settle (.error f))).state.acknowledged =
      (d.elim s.state s.state.revert).acknowledged := by
  rw [act_settle_error hl, State.refund_eq]

/-- The move that a batch has made is undone if the count still is where the move has led. -/
theorem State.acknowledged_revert {s t : State} (h : t.acknowledged = s.received) :
    (s.takeAck.1.elim t t.revert).acknowledged = s.acknowledged := by
  rw [State.takeAck_fst]
  split_ifs with hr
  · exact h.trans hr
  · rw [Option.elim, State.revert, if_pos h]

/-- A batch that is taken back leaves the acknowledged count as it was when it was built. -/
theorem acknowledged_of_taken_back {before ys : List Action} {a : Action} {batch : List Command}
    {c : Command} {id : Nat} (hput : (run n {} before).demand? .proceed = some (.put batch))
    (hc : c ∈ batch) (hid : c.id? = some id)
    (hfail : (run n {} (before ++ .proceed :: ys)).failed? a = some c) :
    ((run n {} (before ++ .proceed :: ys)).act n a).state.acknowledged =
      (run n {} before).state.acknowledged := by
  obtain ⟨t, hsend⟩ := send_of_put hput
  obtain ⟨e, w, hl, ho, hi⟩ := granted_of_send hsend
  rw [proceed?_of_busy hl ho hi] at hsend
  obtain rfl := Move.send.inj (Prod.mk.inj (Option.some.inj hsend)).1
  have hnext := act_proceed_of_busy (n := n) hl ho hi
  have hends : id ∉ endedIds (trail n ((run n {} before).act n .proceed) ys) := by
    have hall := endedId?_notMem ((endedId?_of_failed hfail).1.trans hid)
    rw [trail_append, endedIds, List.filterMap_append, ← endedIds, ← endedIds, List.mem_append,
      not_or, trail, endedIds_cons, List.mem_append, not_or] at hall
    exact hall.2.2
  obtain ⟨⟨w', hw⟩, hack⟩ := sending_lasts (n := n) (s := (run n {} before).act n .proceed)
    (by rw [hnext]) (id?_of_mem_cargo hc hid) hends
  rw [run_append, run, List.foldl_cons, ← run] at hfail ⊢
  rcases failed?_cases hfail with ⟨e', w'', -, hl', -, -⟩ | ⟨e', b, d, w'', f, rfl, hl', -⟩
  · rw [hw] at hl'
    cases hl'
  · obtain ⟨rfl, rfl, rfl, rfl⟩ := Line.sending.inj (hw.symm.trans hl')
    rw [acknowledged_settle_error hl']
    exact State.acknowledged_revert (hack.trans (by rw [hnext]))

/-! ## The connection and the stream -/

def SameStream (s t : Session) : Prop :=
  t.state.connection = s.state.connection ∧ t.stream = s.stream

theorem sameStream_proceed : s.SameStream (s.act n .proceed) := by
  rw [act_proceed_frame]
  exact ⟨rfl, rfl⟩

theorem sameStream_failed {a : Action} {c : Command} (h : s.failed? a = some c) :
    s.SameStream (s.act n a) := by
  rcases failed?_cases h with ⟨e, w, rfl, -⟩ | ⟨e, b, d, w, f, rfl, hl, -⟩
  · exact sameStream_proceed
  · rw [act_settle_error hl, State.refund_eq]
    refine ⟨?_, rfl⟩
    cases d with
    | none => rfl
    | some d => rw [Option.elim, State.revert_eq]

/-! ## A failed call -/

theorem SameBeside.of_tables {receipt : Receipt} {s s' u : State} (h : SameBeside receipt s u)
    (ht : s'.tables = s.tables) : SameBeside receipt s' u := by
  obtain ⟨hp, hs⟩ := Prod.mk.inj ht
  exact ⟨hp ▸ h.pokes, hs ▸ h.subscriptions, hp ▸ h.slots, hs ▸ h.mailboxes⟩

theorem SameBeside.absent {receipt : Receipt} {s u : State} (h : SameBeside receipt s u) {id : Nat}
    (hu : u.Absent id) : s.Absent id where
  poke := (congrArg (List.lookup id) h.pokes).trans hu.poke
  subscription := (congrArg (List.lookup id) h.subscriptions).trans hu.subscription

theorem State.Absent.spent {s : State} {id : Nat} (h : s.Absent id) (receipt : Receipt) :
    (s.spent receipt).Absent id := by
  cases receipt <;> exact ⟨h.poke, h.subscription⟩

theorem change?_of_failed {a : Action} {c : Command} (h : s.failed? a = some c) :
    s.change? n a = some (.withdraw c) := by
  rcases failed?_cases h with ⟨e, w, rfl, -⟩ | ⟨e, b, d, w, f, rfl, -⟩ <;> simp [change?, h]

/-- A failed call leaves the tables as the other changes would have made them. -/
theorem sameBeside_of_failed {s₀ : State} (hs : s₀.Sound) (ha : s₀.Absent s₀.nextId) {r : Request}
    (ht : s.state.tables = (s₀.change (.enter s₀.nextId r)).tables) {as : List Action}
    (hfresh : ∀ r', .enter s₀.nextId r' ∉ changes n s as) {a : Action}
    (hfail : (run n s as).failed? a = some (r.command s₀.nextId)) :
    SameBeside (s₀.receipt r) ((run n s as).act n a).state
      ((changes n s as).foldl State.change (s₀.spent (s₀.receipt r))) := by
  have hcall := (without_enter hs ha r).of_tables ht
  have hrun : Without (s₀.receipt r) (run n s as).state
      ((changes n s as).foldl State.change (s₀.spent (s₀.receipt r))) :=
    (hcall.changes (by simpa using hfresh)).of_tables (run_tables as)
  have hact := act_tables (n := n) (s := run n s as) a
  rw [change?_of_failed hfail] at hact
  exact hrun.withdraw.of_tables hact

section Failed

variable {before : List Action} {r : Request}

theorem notMem_errands {e : Errand} (he : e ∈ (run n {} before).line.errands) :
    e.freight ≠ .command (r.command (run n {} before).state.nextId) := by
  intro hf
  have hid : e.id? = some (run n {} before).state.nextId := by
    rw [Errand.id?, hf]
    exact r.id?_command _
  have hlt := (numbered_initial.run (n := n) before).below _
    (List.mem_append_right _ (List.mem_filterMap.mpr ⟨e, he, hid⟩))
  exact Nat.lt_irrefl _ hlt

/-- If its batch has never been built, a call that fails leaves the acknowledged count alone. -/
theorem acknowledged_of_unbuilt {f : Errand} {as : List Action} {a : Action}
    (hl : s.line = (run n {} before).line.push f)
    (hfail : (run n s as).failed? a = some (r.command (run n {} before).state.nextId))
    (hnone : ∀ xs ys batch, as = xs ++ .proceed :: ys →
      (run n s xs).demand? .proceed = some (.put batch) →
      r.command (run n {} before).state.nextId ∉ batch) :
    ((run n s as).act n a).state.acknowledged = (run n s as).state.acknowledged := by
  rcases failed?_cases hfail with ⟨e, w, rfl, hu, hc, -⟩ | ⟨e, b, d, w, x, rfl, hu, hf⟩
  · rw [act_proceed_of_closed hu hc, State.refund_eq]
  · exfalso
    rcases sending_of_run hu with ⟨w', hw⟩ | ⟨xs, ys, has, hput, hb⟩
    · obtain ⟨v, hv⟩ := Line.push_eq_sending (hl.symm.trans hw)
      exact notMem_errands (e := e) (by rw [hv]; exact List.mem_cons_self) hf
    · refine hnone xs ys b has hput ?_
      rw [hb, State.cargo, hf]
      exact List.mem_append_right _ List.mem_cons_self

/-- If nothing happens between a call and the failure of its batch, the line has been free. -/
theorem line_free_of_failed {f : Errand} {a : Action}
    (hl : s.line = (run n {} before).line.push f) (ho : s.state.isClosed = false)
    (hfail : (s.act n .proceed).failed? a =
      some (r.command (run n {} before).state.nextId)) : (run n {} before).line = .free := by
  have hown {e : Errand} (he : e ∈ (run n {} before).line.errands) :=
    notMem_errands (r := r) he
  cases h₀ : (run n {} before).line with
  | free => rfl
  | granted e w =>
    rw [h₀] at hl hown
    cases hi : s.state.isIdle e.freight with
    | true =>
      rw [act_proceed_of_idle hl ho hi] at hfail
      rcases failed?_cases hfail with ⟨_, _, -, -, hc, -⟩ | ⟨_, _, _, _, _, -, hu, -⟩
      · exact absurd hc (by simp [ho])
      · exact absurd hu (Line.pass_ne_sending _ _ _ _ _)
    | false =>
      rw [act_proceed_of_busy hl ho hi] at hfail
      rcases failed?_cases hfail with ⟨_, _, -, hu, -⟩ | ⟨_, _, _, _, _, -, hu, hf⟩
      · cases hu
      · obtain ⟨rfl, -⟩ := Line.sending.inj hu
        exact absurd hf (hown List.mem_cons_self)
  | sending e b d w =>
    rw [h₀] at hl hown
    rw [act_proceed_of_not_granted (by rw [hl]; rfl)] at hfail
    rcases failed?_cases hfail with ⟨_, _, -, hu, -⟩ | ⟨_, _, _, _, _, -, hu, hf⟩
    · cases hl.symm.trans hu
    · obtain ⟨rfl, -⟩ := Line.sending.inj (hl.symm.trans hu)
      exact absurd hf (hown List.mem_cons_self)

end Failed

theorem State.revert_takeAck (s : State) :
    (s.takeAck.1.elim { s with acknowledged := s.received }
      (State.revert { s with acknowledged := s.received })) = s := by
  rw [State.takeAck_fst]
  split_ifs with hr
  · exact congrArg (fun k => ({ s with acknowledged := k } : State)) hr
  · rw [Option.elim, State.revert, if_pos rfl]

/-- A batch that fails at once is undone exactly. -/
theorem act_proceed_failed {e : Errand} {c : Command} (hl : s.line = .granted e [])
    (ho : s.state.isClosed = false) (he : e.freight = .command c) {a : Action} {c' : Command}
    (hfail : (s.act n .proceed).failed? a = some c') :
    (s.act n .proceed).act n a = { s with line := .free, state := s.state.withdraw c } := by
  have hi : s.state.isIdle e.freight = false := by rw [he]; rfl
  have hu := act_proceed_of_busy (n := n) hl ho hi
  rw [hu] at hfail ⊢
  rcases failed?_cases hfail with ⟨_, _, -, hw, -⟩ | ⟨_, _, _, _, f, rfl, hw, -⟩
  · cases hw
  · obtain ⟨rfl, rfl, rfl, rfl⟩ := Line.sending.inj hw
    rw [act_settle_error rfl]
    simp only [State.revert_takeAck, he]
    rfl

/-- A call in a closed session changes nothing. A call that fails later has nothing entered when it
ends: the tables are what the other changes would have made of them if the call had only used up its
id and its ticket, and the acknowledged count is what it was when the batch was built, or has not
been moved if none was. The call has not touched the connection or the stream, and if nothing else
has happened meanwhile, nothing but the id and the ticket is gone. -/
theorem failed_call_leaves_no_trace (n : Nat) (before : List Action) (owner : Nat) (r : Request) :
    let s₀ := run n {} before
    let c := r.command s₀.state.nextId
    (s₀.call? owner r = none → s₀.act n (.call owner r) = s₀) ∧
    ∀ receipt s, s₀.call? owner r = some (receipt, s) →
    ∀ as a, (run n s as).failed? a = some c →
    let u := run n s as
    let v := u.act n a
    v.state.Absent s₀.state.nextId ∧
    SameBeside receipt v.state ((changes n s as).foldl State.change (s₀.state.spent receipt)) ∧
    (∀ xs ys batch, as = xs ++ .proceed :: ys →
      (run n s xs).demand? .proceed = some (.put batch) → c ∈ batch →
      v.state.acknowledged = (run n s xs).state.acknowledged ∧
        (run n s xs).SameStream ((run n s xs).act n .proceed)) ∧
    ((∀ xs ys batch, as = xs ++ .proceed :: ys →
      (run n s xs).demand? .proceed = some (.put batch) → c ∉ batch) →
      v.state.acknowledged = u.state.acknowledged) ∧
    s₀.SameStream s ∧ u.SameStream v ∧
    (as = [.proceed] → v = { s₀ with state := s₀.state.spent receipt }) := by
  intro s₀ c
  refine ⟨fun h => by simp only [act, h]; rfl, ?_⟩
  intro receipt s hcall as a hfail u v
  obtain ⟨hact, ho, hlt⟩ := call?_eq_some (n := n) hcall
  have hopen := (call?_of_open ho owner r).symm.trans hcall
  obtain ⟨rfl, hs⟩ := Prod.mk.inj (Option.some.inj hopen)
  have habsent : s₀.state.Absent s₀.state.nextId := absent_of_le (Nat.le_refl _)
  have hfresh (r' : Request) : .enter s₀.state.nextId r' ∉ changes n s as :=
    enter_notMem_of_lt hlt r' as
  have hline : s.line = s₀.line.push ⟨owner, .command c⟩ := by rw [← hs]
  have hso : s.state.isClosed = false := by rw [← hs]; exact ho
  have hbeside := sameBeside_of_failed (sound_run sound_initial) habsent (by rw [← hs]; rfl)
    hfresh hfail
  refine ⟨hbeside.absent ((habsent.spent _).changes hfresh), hbeside, ?_,
    acknowledged_of_unbuilt hline hfail, ?_, sameStream_failed hfail, ?_⟩
  · rintro xs ys batch rfl hput hc
    refine ⟨?_, sameStream_proceed⟩
    have hrun (zs : List Action) : run n s zs = run n {} (before ++ .call owner r :: zs) := by
      rw [run_append, hact]
      rfl
    have hput' : (run n {} (before ++ .call owner r :: xs)).demand? .proceed = some (.put batch) :=
      hrun xs ▸ hput
    have hsplit : before ++ .call owner r :: (xs ++ .proceed :: ys) =
        (before ++ .call owner r :: xs) ++ .proceed :: ys := by simp
    simp only [u, v, hrun, hsplit] at hfail ⊢
    exact acknowledged_of_taken_back hput' hc (r.id?_command _) hfail
  · rw [← hs]
    exact ⟨rfl, rfl⟩
  · rintro rfl
    have hfree := line_free_of_failed hline hso hfail
    have hgranted : s.line = .granted ⟨owner, .command c⟩ [] := by rw [hline, hfree]; rfl
    have hv := act_proceed_failed (n := n) hgranted hso rfl hfail
    refine hv.trans ?_
    rw [← hs, ← withdraw_enter habsent r, ← hfree]

/-- The ship answers a poke before the session learns that its batch could not be delivered, and
another poke is called for in between. -/
theorem failed_call_leaves_no_trace_answered :
    let answer : EventStream.Event :=
      { id := some "1", data := "\x7b\"id\":2,\"response\":\"poke\",\"ok\":null\x7d" }
    let r : Request := .poke "zod" "hood" "helm-hi" .null
    let before : List Action :=
      [.call 0 (.subscribe "zod" "hood" "/path"), .proceed, .settle (.ok ()), .awaken, .opened]
    let s := (run 3 {} before).act 3 (.call 1 r)
    let as : List Action := [.proceed, .receive answer, .call 2 r]
    let a : Action := .settle (.error .closed)
    let v := (run 3 s as).act 3 a
    (run 3 {} before).call? 1 r = some (.poke 2 0, s) ∧
      (run 3 s as).failed? a = some (r.command 2) ∧ v.state.Absent 2 ∧
      SameBeside (.poke 2 0) v.state
        ((changes 3 s as).foldl State.change ((run 3 {} before).state.spent (.poke 2 0))) ∧
      v.state.pokes.entries = [(3, 1)] := by
  intro answer r before s as a v
  have hcall : (run 3 {} before).call? 1 r = some (.poke 2 0, s) := rfl
  have hfail : (run 3 s as).failed? a = some (r.command 2) := by decide +kernel
  obtain ⟨habsent, hbeside, -⟩ := (failed_call_leaves_no_trace 3 before 1 r).2 _ s hcall as a hfail
  exact ⟨hcall, hfail, habsent, hbeside, by decide +kernel⟩

end Session

end ShipBridge
