import ShipBridge.Proofs.Session.Changes
import ShipBridge.Proofs.Session.Order

/-!
# Whose errand is on the line, and whose poke is in the table

A job leads the session on by calls of its own, and it uses the line only when that has been
granted to it. So the errands of the other jobs stay where they are. A poke is entered by a call,
under a new id and with a new ticket, and an entry that has gone does not come back.
-/

namespace ShipBridge

open Wire

namespace Session

def Line.errandsOf (l : Line) (j : Nat) : List Errand := l.errands.filter fun e => e.owner = j

/-- What job `j` may do to the session, if it keeps to its own. -/
def Action.By (s : Session) (j : Nat) : Action → Prop
  | .call owner _ | .callAcknowledge owner => owner = j
  | .proceed => s.line.granted? = some j
  | .settle _ => s.line.sending? = some j
  | _ => True

def leaves? (s : Session) : Action → Option Errand
  | .proceed => match s.line with
    | .granted e _ => if s.state.isClosed || s.state.isIdle e.freight then some e else none
    | _ => none
  | .settle _ => match s.line with
    | .sending e .. => some e
    | _ => none
  | _ => none

variable {n : Nat} {s t : Session} {i j : Nat}

/-! ## Errands -/

/-- What leaves the line with an action, followed by what the line holds then, is what the line
held before, followed by what joins it. -/
theorem errands_act (a : Action) : (s.leaves? a).toList ++ (s.act n a).line.errands =
    s.line.errands ++ (s.joins? a).toList := by
  cases hq : a.isQuiet with
  | true =>
    have hnone : s.leaves? a = none ∧ s.joins? a = none := by
      cases a <;> first | exact ⟨rfl, rfl⟩ | cases hq
    rw [act_line_of_quiet hq, hnone.1, hnone.2]
    simp
  | false =>
    cases a with
    | call owner r =>
      cases hc : s.state.isClosed with
      | true => simp [act_call_of_closed owner r hc, leaves?, joins?, hc]
      | false => simp [act_call_line owner r hc, leaves?, joins?, hc]
    | callAcknowledge owner => simp [act, callAcknowledge, leaves?, joins?]
    | proceed =>
      cases hl : s.line with
      | granted e w =>
        rw [act_proceed_line hl]
        simp only [leaves?, hl, joins?, Line.errands]
        split_ifs <;> simp
      | _ => simp [act_proceed_of_not_granted, hl, Line.granted?, leaves?, joins?]
    | settle x =>
      cases hl : s.line with
      | sending e b d w =>
        rw [act_settle_line hl, Line.errands_pass]
        simp [leaves?, joins?, hl, Line.errands]
      | _ => simp [act_settle_of_not_sending, hl, Line.sending?, leaves?, joins?]
    | _ => cases hq

theorem owner_of_leaves {a : Action} {e : Errand} (h : a.By s j) (he : s.leaves? a = some e) :
    e.owner = j := by
  cases a with
  | proceed =>
    cases hl : s.line with
    | granted f w =>
      simp only [leaves?, hl] at he
      split_ifs at he
      rw [← Option.some.inj he]
      simpa [Action.By, hl, Line.granted?] using h
    | _ => simp [leaves?, hl] at he
  | settle x =>
    cases hl : s.line with
    | sending f b d w =>
      simp only [leaves?, hl] at he
      rw [← Option.some.inj he]
      simpa [Action.By, hl, Line.sending?] using h
    | _ => simp [leaves?, hl] at he
  | _ => cases he

theorem owner_of_joins {a : Action} {e : Errand} (h : a.By s j) (he : s.joins? a = some e) :
    e.owner = j := by
  cases a with
  | call owner r =>
    simp only [joins?] at he
    split_ifs at he
    rw [← Option.some.inj he]
    exact h
  | callAcknowledge owner =>
    rw [← Option.some.inj he]
    exact h
  | _ => cases he

theorem owner_of_turn {a : Action} {e : Errand} {b : Option (List Command)} (h : a.By s j)
    (he : s.turn? a = some (e, b)) : e.owner = j := by
  cases a with
  | proceed =>
    cases hl : s.line with
    | granted f w =>
      rw [turn?_of_granted hl] at he
      rw [← (Prod.mk.inj (Option.some.inj he)).1]
      simpa [Action.By, hl, Line.granted?] using h
    | _ => simp [turn?, hl] at he
  | _ => cases he

theorem filter_owner_toList {e? : Option Errand} (h : ∀ e, e? = some e → e.owner = j)
    {p : Nat → Bool} (hp : p j = false) : e?.toList.filter (fun e => p e.owner) = [] := by
  cases e? with
  | none => rfl
  | some e => simp [h e rfl, hp]

theorem filter_owner_self {e? : Option Errand} (h : ∀ e, e? = some e → e.owner = j) :
    e?.toList.filter (fun e => e.owner = j) = e?.toList := by
  cases e? with
  | none => rfl
  | some e => simp [h e rfl]

theorem errandsOf_act {a : Action} (h : a.By s j) (hi : i ≠ j) :
    (s.act n a).line.errandsOf i = s.line.errandsOf i := by
  have hall := congrArg (List.filter fun e => e.owner = i) (errands_act (n := n) (s := s) a)
  have hj : decide (j = i) = false := decide_eq_false hi.symm
  rw [List.filter_append, List.filter_append,
    filter_owner_toList (p := fun k => k = i) (fun e he => owner_of_leaves h he) hj,
    filter_owner_toList (p := fun k => k = i) (fun e he => owner_of_joins h he) hj,
    List.nil_append, List.append_nil] at hall
  exact hall

theorem errandsOf_own {a : Action} (h : a.By s j) :
    (s.leaves? a).toList ++ (s.act n a).line.errandsOf j =
      s.line.errandsOf j ++ (s.joins? a).toList := by
  have hall := congrArg (List.filter fun e => e.owner = j) (errands_act (n := n) (s := s) a)
  rw [List.filter_append, List.filter_append,
    filter_owner_self fun e he => owner_of_leaves h he,
    filter_owner_self fun e he => owner_of_joins h he] at hall
  exact hall

theorem queue_filter_act {a : Action} (h : a.By s j) {p : Nat → Bool} (hp : p j = false) :
    (s.act n a).line.queue.filter (fun e => p e.owner) =
      s.line.queue.filter fun e => p e.owner := by
  have hturn : ∀ e, (s.turn? a).map Prod.fst = some e → e.owner = j := by
    intro e he
    obtain ⟨⟨f, b⟩, hp, rfl⟩ := Option.map_eq_some_iff.mp he
    exact owner_of_turn h hp
  have hall := congrArg (List.filter fun e => p e.owner) (queue_act (n := n) (s := s) a)
  rw [List.filter_append, List.filter_append, filter_owner_toList hturn hp,
    filter_owner_toList (fun e he => owner_of_joins h he) hp, List.nil_append,
    List.append_nil] at hall
  exact hall

theorem Line.queue_sublist (l : Line) : l.queue.Sublist l.errands := by
  cases l with
  | free => exact .refl _
  | granted e w => exact .refl _
  | sending e b d w => exact List.sublist_cons_self e w

theorem errandsOf_eq_nil {l : Line} (h : l.errandsOf j = []) : ∀ e ∈ l.queue, e.owner ≠ j := by
  intro e he heq
  have hmem : e ∈ l.errandsOf j :=
    List.mem_filter.mpr ⟨l.queue_sublist.subset he, by simpa using heq⟩
  rw [h] at hmem
  cases hmem

/-- If a job has one errand on the line it is the job's own that the line is granted to. -/
theorem granted_of_sole {f : Errand} (h : s.line.errandsOf j = [f])
    (hgranted : s.line.granted? = some j) :
    ∃ w, s.line = .granted f w ∧ ∀ e ∈ w, e.owner ≠ j := by
  cases hl : s.line with
  | granted e w =>
    rw [hl] at h hgranted
    have howner : e.owner = j := Option.some.inj hgranted
    simp only [Line.errandsOf, Line.errands, List.filter_cons, howner, decide_true, if_true,
      List.cons.injEq, List.filter_eq_nil_iff, decide_eq_true_eq] at h
    exact ⟨w, by rw [h.1], h.2⟩
  | _ =>
    rw [hl] at hgranted
    cases hgranted

theorem sending_of_sole {f : Errand} (h : s.line.errandsOf j = [f])
    (hsending : s.line.sending? = some j) : ∀ e ∈ s.line.queue, e.owner ≠ j := by
  cases hl : s.line with
  | sending e b d w =>
    rw [hl] at h hsending
    have howner : e.owner = j := Option.some.inj hsending
    simp only [Line.errandsOf, Line.errands, List.filter_cons, howner, decide_true, if_true,
      List.cons.injEq, List.filter_eq_nil_iff, decide_eq_true_eq] at h
    exact h.2
  | _ =>
    rw [hl] at hsending
    cases hsending

theorem errandsOf_of_quiet {a : Action} (h : a.isQuiet = true) (i : Nat) :
    (s.act n a).line.errandsOf i = s.line.errandsOf i := by
  rw [act_line_of_quiet h]

theorem by_of_quiet {a : Action} (h : a.isQuiet = true) : a.By s j := by
  cases a <;> trivial

/-! ## Entries -/

/-- The id and the ticket of a poke that has been entered at some time: no other entry has the
one or the other. -/
structure Tied (s : Session) (id ticket : Nat) : Prop where
  id_lt : id < s.state.nextId
  ticket_lt : ticket < s.state.pokes.slots.length
  same : ∀ i u, s.state.pokes.ticket? i = some u → (i = id ↔ u = ticket)

theorem change?_register {a : Action} {c : Change} (hc : s.change? n a = some c) {i : Nat}
    (h : c.pokeOp? = some (.register i)) :
    i = s.state.nextId ∧ (s.act n a).state.nextId = s.state.nextId + 1 ∧
      ∃ owner r, a = .call owner r := by
  cases a with
  | call owner r =>
    simp only [change?] at hc
    split_ifs at hc with hclosed
    rw [← Option.some.inj hc] at h
    cases r with
    | poke ship app mark json =>
      have hi := Pokes.Op.register.inj (Option.some.inj h)
      exact ⟨hi.symm, act_call_nextId owner _ (by simpa using hclosed), owner, _, rfl⟩
    | _ => cases h
  | proceed =>
    obtain ⟨x, -, rfl⟩ := Option.map_eq_some_iff.mp hc
    cases x <;> cases h
  | settle y =>
    obtain ⟨x, -, rfl⟩ := Option.map_eq_some_iff.mp hc
    cases x <;> cases h
  | receive event =>
    obtain ⟨f, -, rfl⟩ := Option.map_eq_some_iff.mp hc
    cases f <;> cases h
  | close =>
    obtain ⟨r, -, rfl⟩ := Option.map_eq_some_iff.mp hc
    cases h
  | fail =>
    obtain ⟨r, -, rfl⟩ := Option.map_eq_some_iff.mp hc
    cases h
  | forget id =>
    rw [← Option.some.inj hc] at h
    cases h
  | dropPoke ticket =>
    rw [← Option.some.inj hc] at h
    cases h
  | dropSubscription ticket =>
    rw [← Option.some.inj hc] at h
    cases h
  | _ => cases hc

theorem act_pokes (a : Action) : (s.act n a).state.pokes = s.state.pokes ∨
    ∃ op, (s.act n a).state.pokes = s.state.pokes.apply op ∧
      ∀ i, op = .register i → i = s.state.nextId ∧
        (s.act n a).state.nextId = s.state.nextId + 1 ∧ ∃ owner r, a = .call owner r := by
  have htables := (Prod.mk.inj (act_tables (n := n) (s := s) a)).1
  cases hc : s.change? n a with
  | none =>
    rw [hc] at htables
    exact .inl htables
  | some c =>
    rw [hc] at htables
    cases hop : c.pokeOp? with
    | none =>
      refine .inl (htables.trans ?_)
      simp [State.change, Change.onPokes, hop]
    | some op =>
      refine .inr ⟨op, htables.trans ?_, ?_⟩
      · simp [State.change, Change.onPokes, hop]
      · rintro i rfl
        exact change?_register hc hop

theorem nextId_le_act (a : Action) : s.state.nextId ≤ (s.act n a).state.nextId := by
  rw [act_nextId]
  exact Nat.le_add_right _ _

/-- An entry was there before, or it is the one that a call has just made. -/
theorem ticket?_act {a : Action} {i u : Nat}
    (h : (s.act n a).state.pokes.ticket? i = some u) : s.state.pokes.ticket? i = some u ∨
      (i = s.state.nextId ∧ u = s.state.pokes.slots.length ∧ ∃ owner r, a = .call owner r) := by
  rcases act_pokes (n := n) (s := s) a with hsame | ⟨op, hop, hnew⟩
  · exact .inl (hsame ▸ h)
  · rw [hop] at h
    rcases Pokes.ticket?_apply h with hold | ⟨rfl, hu⟩
    · exact .inl hold
    · obtain ⟨hi, -, hcall⟩ := hnew i rfl
      exact .inr ⟨hi, hu, hcall⟩

theorem Tied.act {id ticket : Nat} (h : s.Tied id ticket) (a : Action) :
    (s.act n a).Tied id ticket := by
  refine ⟨Nat.lt_of_lt_of_le h.id_lt (nextId_le_act a), ?_, ?_⟩
  · rcases act_pokes (n := n) (s := s) a with hsame | ⟨op, hop, -⟩
    · rw [hsame]
      exact h.ticket_lt
    · rw [hop]
      exact Nat.lt_of_lt_of_le h.ticket_lt (Pokes.length_le_apply op)
  · intro i u hu
    rcases ticket?_act hu with hold | ⟨rfl, rfl, -⟩
    · exact h.same i u hold
    · have hid := h.id_lt
      have hticket := h.ticket_lt
      constructor <;> intro heq <;> omega

/-- The tables are in order, and as long as an entry is there its ticket has brought nothing. -/
structure Tidy (s : Session) : Prop where
  sound : s.state.pokes.Sound
  unsettled : s.state.pokes.Unsettled

theorem tidy_initial : ({} : Session).Tidy := ⟨Ticketed.nil, fun _ _ h => by cases h⟩

theorem Tidy.act (h : s.Tidy) (a : Action) : (s.act n a).Tidy := by
  rcases act_pokes (n := n) (s := s) a with hsame | ⟨op, hop, -⟩
  · exact ⟨hsame ▸ h.sound, hsame ▸ h.unsettled⟩
  · exact ⟨hop ▸ h.sound.apply op, hop ▸ h.unsettled.apply h.sound op⟩

theorem ticket?_of_act {a : Action} (ha : ∀ owner r, a ≠ .call owner r) {i u : Nat}
    (h : (s.act n a).state.pokes.ticket? i = some u) : s.state.pokes.ticket? i = some u := by
  rcases ticket?_act h with hold | ⟨-, -, owner, r, rfl⟩
  · exact hold
  · exact absurd rfl (ha owner r)

theorem ticket?_forget (id : Nat) : (s.forget id).2.state.pokes.ticket? id = none := by
  change (s.state.pokes.remove id).2.ticket? id = none
  rw [Pokes.remove_snd, Pokes.ticket?_close, if_pos rfl]

/-! ## Calls, and the end of an errand -/

/-- A call for a poke enters it under the next id, with a new ticket; other calls leave the table
of pokes as it is. -/
theorem call?_pokes {r : Request} {receipt : Receipt} (h : s.call? j r = some (receipt, t)) :
    (∃ ship app mark json, r = .poke ship app mark json ∧
      receipt = .poke s.state.nextId s.state.pokes.slots.length ∧
      t.state.pokes = (s.state.pokes.register s.state.nextId).2) ∨
    ((∀ id ticket, receipt ≠ .poke id ticket) ∧ t.state.pokes = s.state.pokes) := by
  have hc := (call?_eq_some (n := 0) h).2.1
  cases r with
  | poke ship app mark json =>
    simp only [call?, State.register?, hc, Bool.false_eq_true, if_false] at h
    obtain ⟨rfl, rfl⟩ := Prod.mk.inj (Option.some.inj h)
    exact .inl ⟨ship, app, mark, json, rfl, by rw [Pokes.register_fst]; rfl, rfl⟩
  | subscribe ship app path =>
    simp only [call?, State.register?, hc, Bool.false_eq_true, if_false] at h
    obtain ⟨rfl, rfl⟩ := Prod.mk.inj (Option.some.inj h)
    exact .inr ⟨fun id ticket heq => (by cases heq), rfl⟩
  | unsubscribe subscription =>
    simp only [call?, State.register?, hc, Bool.false_eq_true, if_false] at h
    obtain ⟨rfl, rfl⟩ := Prod.mk.inj (Option.some.inj h)
    exact .inr ⟨fun id ticket heq => (by cases heq), rfl⟩

theorem ticket?_of_call {r : Request} {receipt : Receipt} (h : s.call? j r = some (receipt, t))
    {i u : Nat} (hu : t.state.pokes.ticket? i = some u) :
    s.state.pokes.ticket? i = some u ∨ receipt = .poke i u := by
  rcases call?_pokes h with ⟨ship, app, mark, json, -, hreceipt, hpokes⟩ | ⟨-, hpokes⟩
  · rw [hpokes] at hu
    change (s.state.pokes.apply (.register s.state.nextId)).ticket? i = some u at hu
    rcases Pokes.ticket?_apply hu with hold | ⟨hi, hticket⟩
    · exact .inl hold
    · obtain rfl := Pokes.Op.register.inj hi
      rw [hticket]
      exact .inr hreceipt
  · exact .inl (hpokes ▸ hu)

theorem errandsOf_call? {r : Request} {receipt : Receipt} (h : s.call? j r = some (receipt, t)) :
    t.line.errandsOf j = s.line.errandsOf j ++ [⟨j, .command (r.command s.state.nextId)⟩] := by
  obtain ⟨hact, hopen, -⟩ := call?_eq_some (n := 0) h
  rw [hact, act_call_line j r hopen]
  simp [Line.errandsOf]

theorem queue_call? {r : Request} {receipt : Receipt} (h : s.call? j r = some (receipt, t)) :
    t.line.queue = s.line.queue ++ [⟨j, .command (r.command s.state.nextId)⟩] := by
  obtain ⟨hact, hopen, -⟩ := call?_eq_some (n := 0) h
  rw [hact, act_call_line j r hopen, Line.queue_push]

theorem queue_settle? {a : Answer} (h : s.settle? a = some t) : t.line.queue = s.line.queue := by
  have hqueue := queue_act (n := 0) (s := s) (.settle a)
  simpa [turn?, joins?, act, h] using hqueue

theorem commands_cargo {c : Command} (hc : c.id?.isSome = true) (s : State) :
    (s.cargo (.command c)).filter (fun c => c.id?.isSome) = [c] := by
  have hack : (s.takeAck.1.map fun a => Command.ack a.after).toList.filter
      (fun c => c.id?.isSome) = [] := by
    cases s.takeAck.1 <;> rfl
  rw [State.cargo, List.filter_append, hack, List.nil_append]
  simp [Freight.command?, hc]

theorem receipt_of_unsubscribe {subscription : Nat} {receipt : Receipt}
    (h : s.call? j (.unsubscribe subscription) = some (receipt, t)) :
    receipt = .bare s.state.nextId := by
  have hc := (call?_eq_some (n := 0) h).2.1
  simp only [call?, State.register?, hc, Bool.false_eq_true, if_false] at h
  exact (Prod.mk.inj (Option.some.inj h)).1.symm

theorem tied_of_call {r : Request} {id ticket : Nat} (hs : s.Tidy)
    (h : s.call? j r = some (.poke id ticket, t)) : t.Tied id ticket := by
  rcases call?_pokes h with ⟨ship, app, mark, json, rfl, hreceipt, hpokes⟩ | ⟨hne, -⟩
  · obtain ⟨rfl, rfl⟩ := Receipt.poke.inj hreceipt
    obtain ⟨-, -, hlt⟩ := call?_eq_some (n := 0) h
    refine ⟨hlt, ?_, ?_⟩
    · rw [hpokes, Pokes.register_snd, List.length_append, Pokes.close_length]
      exact Nat.lt_succ_self _
    · intro i u hu
      rw [hpokes] at hu
      by_cases hi : i = s.state.nextId
      · subst hi
        rw [Pokes.ticket?_register] at hu
        exact iff_of_true rfl (Option.some.inj hu).symm
      · rw [Pokes.ticket?_register_of_ne hi] at hu
        have hlt := Ticketed.ticket_lt hs.sound hu
        exact iff_of_false hi (Nat.ne_of_lt hlt)
  · exact absurd rfl (hne id ticket)

theorem exists_proceed? (h : s.line.granted? = some j) : ∃ x, s.proceed? = some x := by
  cases hl : s.line with
  | granted e w =>
    cases hf : e.freight <;> simp only [proceed?, hl, hf] <;> split_ifs <;> exact ⟨_, rfl⟩
  | _ =>
    rw [hl] at h
    cases h

theorem exists_settle? (h : s.line.sending? = some j) (a : Answer) : ∃ t, s.settle? a = some t := by
  cases hl : s.line with
  | sending e b d w => simp [settle?, hl]
  | _ =>
    rw [hl] at h
    cases h

theorem sending?_of_proceed? {x : Move × Session} (h : s.proceed? = some x) :
    s.line.sending? = none := by
  cases hl : s.line with
  | sending e b d w => simp [proceed?, hl] at h
  | _ => rfl

/-- The errand whose batch is put on its way stays on the line. -/
theorem leaves?_of_send {b : List Command} (h : s.proceed? = some (.send b, t)) :
    s.leaves? .proceed = none := by
  cases hl : s.line with
  | granted e w =>
    by_cases hb : s.state.isClosed = false ∧ s.state.isIdle e.freight = false
    · simp [leaves?, hl, hb.1, hb.2]
    · exfalso
      cases hc : s.state.isClosed with
      | true => simp [proceed?, hl, hc] at h
      | false =>
        have hi : s.state.isIdle e.freight = true := by
          cases hi : s.state.isIdle e.freight with
          | true => rfl
          | false => exact absurd ⟨hc, hi⟩ hb
        cases hf : e.freight with
        | command c => simp [State.isIdle, hf] at hi
        | acknowledgment =>
          simp only [State.isIdle, hf] at hi
          simp [proceed?, hl, hc, hf, hi] at h
  | _ => simp [leaves?, hl]

theorem granted?_of_settle? {a : Answer} (h : s.settle? a = some t) :
    s.line.granted? = none := by
  cases hl : s.line with
  | granted e w => simp [settle?, hl] at h
  | _ => rfl

/-- The errand of job `j` ends, with its batch or without one. -/
def Passes (s : Session) (j : Nat) (a : Answer) (t : Session) : Prop :=
  (s.line.granted? = some j ∧ s.proceed? = some (.done a, t)) ∨
    (s.line.sending? = some j ∧ s.settle? a = some t)

theorem ticket?_withdraw {id : Nat} {ship app mark : String} {json : Json} (s : State) :
    (s.withdraw (.poke id ship app mark json)).pokes.ticket? id = none := by
  change (s.pokes.remove id).2.ticket? id = none
  rw [Pokes.remove_snd, Pokes.ticket?_close, if_pos rfl]

/-- The errand leaves the line, and what it has entered is taken back if it has failed. -/
theorem Passes.leaves {a : Answer} (h : s.Passes j a t) (n : Nat) : ∃ b e, t = s.act n b ∧
    b.By s j ∧ s.leaves? b = some e ∧ s.joins? b = none ∧
      ∀ f c, a = .error f → e.freight = .command c →
        ∃ u : State, u.tables = s.state.tables ∧ t.state = u.withdraw c := by
  rcases h with ⟨hgranted, hdone⟩ | ⟨hsending, hsettle⟩
  · have ht : t = s.act n .proceed := by simp [act, hdone]
    cases hl : s.line with
    | granted e w =>
      refine ⟨.proceed, e, ht, hgranted, ?_, rfl, ?_⟩
      · by_cases hb : s.state.isClosed = false ∧ s.state.isIdle e.freight = false
        · rw [proceed?_of_busy hl hb.1 hb.2] at hdone
          cases hdone
        · simp only [leaves?, hl]
          rw [if_pos (by cases hc : s.state.isClosed <;> simp_all)]
      · rintro f c rfl hfreight
        cases hc : s.state.isClosed with
        | true =>
          refine ⟨s.state, rfl, ?_⟩
          rw [ht, act_proceed_of_closed hl hc, hfreight]
          rfl
        | false =>
          rw [proceed?_of_busy hl hc (by rw [hfreight]; rfl)] at hdone
          cases hdone
    | _ => simp [hl, Line.granted?] at hgranted
  · have ht : t = s.act n (.settle a) := by simp [act, hsettle]
    cases hl : s.line with
    | sending e b d w =>
      refine ⟨.settle a, e, ht, hsending, by simp [leaves?, hl], rfl, ?_⟩
      rintro f c rfl hfreight
      refine ⟨d.elim s.state s.state.revert, ?_, ?_⟩
      · cases d with
        | none => rfl
        | some d =>
          rw [Option.elim, State.revert_eq]
          rfl
      · rw [ht, act_settle_error hl, hfreight]
        rfl
    | _ => simp [hl, Line.sending?] at hsending

end Session

end ShipBridge
