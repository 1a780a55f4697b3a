import ShipBridge.Proofs.Session.Ids
import ShipBridge.Proofs.Session.Pokes
import ShipBridge.Proofs.Session.Subscriptions

/-!
# What a run does to the tables

An action bears on the waiting pokes and the open subscriptions in at most one of seven ways: a
call registers, a call that fails is taken back, a frame is dispatched, a poke is forgotten, the
session ends, or a caller drops what it holds. Each of these is an operation on one of the tables
or on both, so the tables after a run are what the operations of its changes make of them.
-/

namespace ShipBridge

open Wire

namespace Session

deriving instance DecidableEq for Request

inductive Change where
  | enter (id : Nat) (r : Request)
  | withdraw (c : Command)
  | dispatch (f : Frame)
  | forget (id : Nat)
  | tearDown (reason : String)
  | dropPoke (ticket : Nat)
  | dropSubscription (ticket : Nat)
deriving DecidableEq

def Change.pokeOp? : Change → Option Pokes.Op
  | .enter id (.poke ..) => some (.register id)
  | .withdraw (.poke id ..) => some (.remove id)
  | .dispatch (.poke id ok err) => some (.resolve id (State.pokeAnswer id ok err))
  | .forget id => some (.remove id)
  | .tearDown _ => some (.failAll .closed)
  | .dropPoke ticket => some (.abandon ticket)
  | _ => none

def Change.subscriptionOp? : Change → Option Subscriptions.Op
  | .enter id (.subscribe ..) => some (.register id)
  | .withdraw (.subscribe id ..) => some (.remove id)
  | .dispatch (.subscribe id _ (some err)) => some (.reject id (refusalText err))
  | .dispatch (.diff id json) => some (.deliver id json)
  | .dispatch (.quit id) => some (.quit id)
  | .tearDown reason => some (.terminateAll reason)
  | .dropSubscription ticket => some (.abandon ticket)
  | _ => none

def Change.onPokes (c : Change) (p : Pokes) : Pokes := c.pokeOp?.elim p p.apply

def Change.onSubscriptions (c : Change) (s : Subscriptions) : Subscriptions :=
  c.subscriptionOp?.elim s s.apply

def State.change (s : State) (c : Change) : State :=
  { s with pokes := c.onPokes s.pokes, subscriptions := c.onSubscriptions s.subscriptions }

def State.tables (s : State) : Pokes × Subscriptions := (s.pokes, s.subscriptions)

/-- The command whose call fails with an action, and is taken back for that. -/
def failed? (s : Session) (a : Action) : Option Command :=
  match s.concluded? a with
  | some (c, .error _) => some c
  | _ => none

def change? (n : Nat) (s : Session) : Action → Option Change
  | .call _ r => if s.state.isClosed then none else some (.enter s.state.nextId r)
  | .proceed => (s.failed? .proceed).map .withdraw
  | .settle a => (s.failed? (.settle a)).map .withdraw
  | .receive e => (s.dispatched? (.receive e)).map .dispatch
  | .forget id => some (.forget id)
  | .close => (s.ending? n .close).map .tearDown
  | .fail => (s.ending? n .fail).map .tearDown
  | .dropPoke ticket => some (.dropPoke ticket)
  | .dropSubscription ticket => some (.dropSubscription ticket)
  | _ => none

def changes (n : Nat) (s : Session) (as : List Action) : List Change :=
  (trail n s as).filterMap fun m => m.1.change? n m.2

variable {n : Nat} {s : Session}

/-! ## The change that an action makes -/

theorem State.change_tables {s t : State} (h : s.tables = t.tables) (c : Change) :
    (s.change c).tables = (t.change c).tables := by
  obtain ⟨hp, hs⟩ := Prod.mk.inj h
  simp only [tables, change, hp, hs]

theorem State.withdraw_tables (s : State) (c : Command) :
    (s.withdraw c).tables = (s.change (.withdraw c)).tables := by
  cases c <;> rfl

theorem State.dispatch_tables (s : State) (f : Frame) :
    (s.dispatch f).tables = (s.change (.dispatch f)).tables := by
  cases f with
  | subscribe id ok err => cases err <;> rfl
  | _ => rfl

theorem State.noted_tables (s : State) (e : EventStream.Event) :
    (s.noted e).tables = s.tables := by
  unfold State.noted
  cases e.number? <;> rfl

theorem State.tearDown?_tables {s t : State} {r : String} (h : s.tearDown? r = some t) :
    t.tables = (s.change (.tearDown r)).tables := by
  unfold State.tearDown? at h
  split_ifs at h
  rw [← Option.some.inj h]
  rfl

theorem act_call_tables (owner : Nat) (r : Request) : (s.act n (.call owner r)).state.tables =
    ((s.change? n (.call owner r)).elim s.state s.state.change).tables := by
  cases hc : s.state.isClosed with
  | true =>
    rw [act_call_of_closed owner r hc]
    simp [change?, hc]
  | false =>
    simp only [change?, hc, Bool.false_eq_true, if_false, Option.elim]
    cases r <;> simp only [act, call?, State.register?, hc] <;> rfl

theorem act_proceed_tables : (s.act n .proceed).state.tables =
    ((s.change? n .proceed).elim s.state s.state.change).tables := by
  cases hl : s.line with
  | granted e w =>
    cases hc : s.state.isClosed with
    | true =>
      rw [act_proceed_of_closed hl hc]
      cases hf : e.freight with
      | command c =>
        simp [change?, failed?, concluded?, hl, hc, hf, Freight.command?, State.refund,
          State.withdraw_tables]
      | acknowledgment =>
        simp [change?, failed?, concluded?, hl, hc, hf, Freight.command?, State.refund]
    | false =>
      have hn : s.change? n .proceed = none := by simp [change?, failed?, concluded?, hl, hc]
      cases hi : s.state.isIdle e.freight with
      | true => rw [act_proceed_of_idle hl hc hi, hn]; rfl
      | false => rw [act_proceed_of_busy hl hc hi, hn]; rfl
  | _ =>
    rw [act_proceed_of_not_granted (by rw [hl]; rfl)]
    simp [change?, failed?, concluded?, hl]

theorem act_settle_tables (a : Answer) : (s.act n (.settle a)).state.tables =
    ((s.change? n (.settle a)).elim s.state s.state.change).tables := by
  cases hl : s.line with
  | sending e b d w =>
    cases a with
    | ok =>
      have hn : s.change? n (.settle (.ok ())) = none := by
        cases hf : e.freight <;> simp [change?, failed?, concluded?, hl, hf, Freight.command?]
      rw [act_settle_ok hl, hn]
      cases e.freight with
      | command c =>
        simp only [conclude, connect_state]
        split_ifs <;> rfl
      | acknowledgment => rfl
    | error f =>
      have hd : (d.elim s.state s.state.revert).tables = s.state.tables := by
        cases d with
        | none => rfl
        | some d =>
          rw [Option.elim, State.revert_eq]
          rfl
      rw [act_settle_error hl]
      cases hf : e.freight with
      | command c =>
        simp [change?, failed?, concluded?, hl, hf, Freight.command?, State.refund,
          State.withdraw_tables, State.change_tables hd]
      | acknowledgment =>
        simp [change?, failed?, concluded?, hl, hf, Freight.command?, State.refund, hd]
  | _ =>
    rw [act_settle_of_not_sending _ (by rw [hl]; rfl)]
    simp [change?, failed?, concluded?, hl]

theorem act_receive_tables (e : EventStream.Event) : (s.act n (.receive e)).state.tables =
    ((s.change? n (.receive e)).elim s.state s.state.change).tables := by
  cases h : s.takes e with
  | false =>
    rw [act_receive_of_not_takes h]
    simp [change?, dispatched?, h]
  | true =>
    rw [act_receive_of_takes h]
    cases hf : s.dispatched? (.receive e) with
    | none => simp [change?, hf, State.noted_tables]
    | some f =>
      simp [change?, hf, State.dispatch_tables, State.change_tables (State.noted_tables s.state e)]

/-- The tables after an action are what the change that it makes, if any, makes of them. -/
theorem act_tables (a : Action) :
    (s.act n a).state.tables = ((s.change? n a).elim s.state s.state.change).tables := by
  have hend (ha : a = .close ∨ a = .fail) : (s.act n a).state.tables =
      (((s.ending? n a).map .tearDown).elim s.state s.state.change).tables := by
    cases h : s.ending? n a with
    | none =>
      rw [act_state_of_not_ending ha h]
      rfl
    | some r => exact State.tearDown?_tables (tearDown?_of_ending h)
  cases a with
  | call owner r => exact act_call_tables owner r
  | proceed => exact act_proceed_tables
  | settle a => exact act_settle_tables a
  | receive e => exact act_receive_tables e
  | close => exact hend (.inl rfl)
  | fail => exact hend (.inr rfl)
  | connect =>
    simp only [act, connect_state]
    split_ifs <;> rfl
  | awaken => exact congrArg State.tables awaken_state
  | opened => exact congrArg State.tables opened_state
  | halt => exact congrArg State.tables halt_state
  | _ => rfl

theorem changes_cons (a : Action) (as : List Action) :
    changes n s (a :: as) = (s.change? n a).toList ++ changes n (s.act n a) as := by
  cases h : s.change? n a <;> simp [changes, trail, h]

theorem changes_append (as bs : List Action) :
    changes n s (as ++ bs) = changes n s as ++ changes n (run n s as) bs := by
  simp only [changes, trail_append, List.filterMap_append]

/-- The tables after a run are what its changes, one after the other, make of them. -/
theorem run_tables (as : List Action) :
    (run n s as).state.tables = ((changes n s as).foldl State.change s.state).tables := by
  have hcongr (cs : List Change) {s t : State} (h : s.tables = t.tables) :
      (cs.foldl State.change s).tables = (cs.foldl State.change t).tables := by
    induction cs generalizing s t with
    | nil => exact h
    | cons c cs ih => exact ih (State.change_tables h c)
  induction as generalizing s with
  | nil => rfl
  | cons a as ih =>
    have hs := act_tables (n := n) (s := s) a
    rw [changes_cons, List.foldl_append]
    refine ih.trans (hcongr _ (hs.trans ?_))
    cases s.change? n a <;> rfl

theorem foldl_change_tables (cs : List Change) (s : State) : (cs.foldl State.change s).tables =
    (cs.foldl (fun p c => c.onPokes p) s.pokes,
      cs.foldl (fun t c => c.onSubscriptions t) s.subscriptions) := by
  induction cs generalizing s with
  | nil => rfl
  | cons c cs ih => exact ih (s.change c)

theorem run_pokes (as : List Action) : (run n s as).state.pokes =
    (changes n s as).foldl (fun p c => c.onPokes p) s.state.pokes :=
  (Prod.mk.inj ((run_tables as).trans (foldl_change_tables _ _))).1

theorem run_subscriptions (as : List Action) : (run n s as).state.subscriptions =
    (changes n s as).foldl (fun t c => c.onSubscriptions t) s.state.subscriptions :=
  (Prod.mk.inj ((run_tables as).trans (foldl_change_tables _ _))).2

/-! ## Ids in changes -/

/-- Does a step end the call for the command `id`, with its batch delivered? -/
def isReturn (id : Nat) (m : Session × Action) : Prop :=
  ∃ c, m.1.concluded? m.2 = some (c, .ok ()) ∧ c.id? = some id

theorem endedId?_of_failed {a : Action} {c : Command} (h : s.failed? a = some c) :
    s.endedId? a = c.id? ∧ ∃ f, s.concluded? a = some (c, .error f) := by
  unfold failed? at h
  split at h
  · next c' f hc =>
    obtain rfl := Option.some.inj h
    exact ⟨by simp [endedId?, hc], f, hc⟩
  · cases h

theorem failed_of_withdraw {a : Action} {c : Command} (h : s.change? n a = some (.withdraw c)) :
    s.failed? a = some c := by
  cases a <;> simp_all [change?]

theorem mem_changes {as : List Action} {c : Change} :
    c ∈ changes n s as ↔ ∃ m ∈ trail n s as, m.1.change? n m.2 = some c := List.mem_filterMap

/-- A command whose call ends with its batch delivered is never taken back. -/
theorem withdraw_notMem_of_return {before as rest : List Action} {id : Nat}
    (hret : ∃ m ∈ trail n (run n {} before) (as ++ rest), isReturn id m) {c : Command}
    (hc : c.id? = some id) : .withdraw c ∉ changes n (run n {} before) as := by
  intro hw
  obtain ⟨m, hm, c', hc', hid⟩ := hret
  obtain ⟨m', hm', hch⟩ := mem_changes.mp hw
  obtain ⟨hend, f, hf⟩ := endedId?_of_failed (failed_of_withdraw hch)
  have hmem : m' ∈ trail n (run n {} before) (as ++ rest) := by
    rw [trail_append]
    exact List.mem_append_left _ hm'
  have heq : m = m' :=
    ends_once before (as ++ rest) hm hmem (by simp [endedId?, hc', hid]) (hend.trans hc)
  rw [heq, hf] at hc'
  cases hc'

theorem nextId_le_run (as : List Action) : s.state.nextId ≤ (run n s as).state.nextId := by
  refine run_induction (P := fun t => s.state.nextId ≤ t.state.nextId) (Nat.le_refl _) ?_ as
  intro t a ht
  rw [act_nextId]
  exact Nat.le_trans ht (Nat.le_add_right _ _)

theorem enter_notMem_of_lt {id : Nat} (h : id < s.state.nextId) (r : Request) (as : List Action) :
    .enter id r ∉ changes n s as := by
  induction as generalizing s with
  | nil => simp [changes, trail]
  | cons a as ih =>
    rw [changes_cons, List.mem_append, not_or]
    refine ⟨?_, ih ?_⟩
    · intro hm
      have hc : s.change? n a = some (.enter id r) := Option.mem_toList.mp hm
      cases a with
      | call owner r' =>
        simp only [change?] at hc
        split_ifs at hc
        have hid := Change.enter.inj (Option.some.inj hc)
        omega
      | _ => simp [change?] at hc
    · rw [act_nextId]
      exact Nat.lt_of_lt_of_le h (Nat.le_add_right _ _)

/-- Among these changes none enters the id again or takes back the command that it belongs to. -/
structure Undisturbed (id : Nat) (cs : List Change) : Prop where
  entered : ∀ r, .enter id r ∉ cs
  withdrawn : ∀ x : Command, x.id? = some id → .withdraw x ∉ cs

theorem Undisturbed.sublist {id : Nat} {cs ds : List Change} (h : Undisturbed id cs)
    (hd : ds.Sublist cs) : Undisturbed id ds where
  entered r hr := h.entered r (hd.subset hr)
  withdrawn x hx hm := h.withdrawn x hx (hd.subset hm)

theorem undisturbed_of_return {before as rest : List Action} {id : Nat}
    (hid : id < (run n {} before).state.nextId)
    (hret : ∃ m ∈ trail n (run n {} before) (as ++ rest), isReturn id m) :
    Undisturbed id (changes n (run n {} before) as) :=
  ⟨fun r => enter_notMem_of_lt hid r as, fun _ hx => withdraw_notMem_of_return hret hx⟩

theorem mem_of_mem_trail {as : List Action} {m : Session × Action} (h : m ∈ trail n s as) :
    m.2 ∈ as := by
  induction as generalizing s with
  | nil => cases h
  | cons a as ih =>
    rcases List.mem_cons.mp h with rfl | h
    · exact List.mem_cons_self
    · exact List.mem_cons_of_mem a (ih h)

/-- A change that only one action makes is made by that action. -/
theorem mem_of_mem_changes {c : Change} {a : Action} {as : List Action}
    (h : ∀ (t : Session) b, t.change? n b = some c → b = a) (hc : c ∈ changes n s as) :
    a ∈ as := by
  obtain ⟨m, hm, hmc⟩ := mem_changes.mp hc
  exact h m.1 m.2 hmc ▸ mem_of_mem_trail hm

theorem call?_eq_some {owner : Nat} {r : Request} {receipt : Receipt} {t : Session}
    (h : s.call? owner r = some (receipt, t)) : t = s.act n (.call owner r) ∧
      s.state.isClosed = false ∧ s.state.nextId < t.state.nextId := by
  have ht : t = s.act n (.call owner r) := by simp [act, h]
  cases hc : s.state.isClosed with
  | true => cases r <;> simp [call?, State.register?, hc] at h
  | false =>
    refine ⟨ht, rfl, ?_⟩
    rw [ht, act_call_nextId owner r hc]
    exact Nat.lt_succ_self _

/-! ## The tables stay in order -/

structure State.Sound (s : State) : Prop where
  pokes : s.pokes.Sound
  subscriptions : s.subscriptions.Sound

theorem Pokes.Sound.change {p : Pokes} (h : p.Sound) (c : Change) :
    (c.onPokes p).Sound := by
  unfold Change.onPokes
  cases c.pokeOp? with
  | none => exact h
  | some op => exact h.apply op

theorem Subscriptions.Sound.change {t : Subscriptions} (h : t.Sound) (c : Change) :
    (c.onSubscriptions t).Sound := by
  unfold Change.onSubscriptions
  cases c.subscriptionOp? with
  | none => exact h
  | some op => exact h.apply op

theorem State.Sound.change {s : State} (h : s.Sound) (c : Change) : (s.change c).Sound :=
  ⟨h.pokes.change c, h.subscriptions.change c⟩

theorem sound_run {as : List Action} (h : s.state.Sound) : (run n s as).state.Sound := by
  refine run_induction (P := fun t => t.state.Sound) h ?_ as
  intro t a ht
  obtain ⟨hp, hs⟩ := Prod.mk.inj (act_tables (n := n) (s := t) a)
  cases hc : t.change? n a with
  | none =>
    rw [hc] at hp hs
    exact ⟨hp ▸ ht.pokes, hs ▸ ht.subscriptions⟩
  | some c =>
    rw [hc] at hp hs
    exact ⟨hp ▸ (ht.change c).pokes, hs ▸ (ht.change c).subscriptions⟩

theorem sound_initial : ({} : Session).state.Sound := ⟨Ticketed.nil, Ticketed.nil⟩

/-- After a call that is delivered at some time the tables are in order, the id that it took is not
given again, and no change disturbs what it has entered. -/
theorem undisturbed_of_call {before as rest : List Action} {owner : Nat} {r : Request}
    {receipt : Receipt} {id : Nat}
    (hcall : (run n {} before).call? owner r = some (receipt, s))
    (hid : id = (run n {} before).state.nextId)
    (hret : ∃ m ∈ trail n s (as ++ rest), isReturn id m) :
    s.state.Sound ∧ id < s.state.nextId ∧ Undisturbed id (changes n s as) := by
  obtain ⟨hact, -, hlt⟩ := call?_eq_some (n := n) hcall
  have hs : s = run n {} (before ++ [.call owner r]) := by rw [hact, run_concat]
  rw [← hid] at hlt
  refine ⟨hs ▸ sound_run sound_initial, hlt, ?_⟩
  rw [hs] at hlt hret ⊢
  exact undisturbed_of_return hlt hret

end Session

end ShipBridge
