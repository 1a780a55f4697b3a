import ShipBridge.Proofs.Session.Frames
import ShipBridge.Proofs.Session.Owners
import ShipBridge.Proofs.Session.Receivers
import ShipBridge.Proofs.Session.Withdrawal

/-!
# Ids stand for calls

A call that begins is booked: its command and the receipt for what it has registered. The booked
calls are numbered from one, and each has its number for an id. An entry in one of the tables is
that of a booked call, by its id and by its ticket, and the commands on the line and in the batches
are those of booked calls. So an id stands for one call, in all of these places, and an event
changes what the tables hold for a call only if its frame carries the id of that call's command.
-/

namespace ShipBridge

open Wire

def Wire.Addressee.id : Addressee → Nat
  | .poke id | .subscription id => id

namespace Session

def Action.isCall : Action → Bool
  | .call .. => true
  | _ => false

/-- The command of a call that begins, and its receipt. -/
def booked? (s : Session) : Action → Option (Command × Receipt)
  | .call _ r => (s.state.register? r).map fun (c, receipt, _) => (c, receipt)
  | _ => none

def booked (tr : List (Session × Action)) : List (Command × Receipt) :=
  tr.filterMap fun m => m.1.booked? m.2

def sentIds (tr : List (Session × Action)) : List Nat :=
  (puts tr).flatMap fun batch => batch.filterMap Command.id?

/-- Is a receipt one for such a command? -/
def Receipt.Fits : Receipt → Command → Prop
  | .poke i _, .poke j .. | .subscription i _, .subscribe j .. | .bare i, .unsubscribe j _ => i = j
  | _, _ => False

def Receipt.poke? : Receipt → Option (Nat × Nat)
  | .poke id ticket => some (id, ticket)
  | _ => none

def Receipt.subscription? : Receipt → Option (Nat × Nat)
  | .subscription id ticket => some (id, ticket)
  | _ => none

def Receipt.addressee? : Receipt → Option Addressee
  | .poke id _ => some (.poke id)
  | .subscription id _ => some (.subscription id)
  | .bare _ => none

/-- What the tables hold for a receipt: the entry under its id, and what its ticket has brought. -/
def State.holding (s : State) : Receipt → Option ((Option Nat × Slot) ⊕ (Option Entry × Mailbox))
  | .poke id ticket => some (.inl (s.pokes.ticket? id, s.pokes.slot ticket))
  | .subscription id ticket =>
    some (.inr (s.subscriptions.entry? id, s.subscriptions.mailbox ticket))
  | .bare _ => none

variable {n : Nat} {s t : Session} {a : Action} {id k : Nat}

/-! ## Booked calls -/

theorem booked?_call (owner : Nat) (r : Request) : s.booked? (.call owner r) =
    if s.state.isClosed then none else some (r.command s.state.nextId, s.state.receipt r) := by
  cases hc : s.state.isClosed with
  | true => cases r <;> simp [booked?, State.register?, hc]
  | false =>
    cases r <;> simp only [booked?, State.register?, hc, State.allocate, Bool.false_eq_true,
      if_false, Pokes.register_fst, Subscriptions.register_fst] <;> rfl

/-- An action that books a call makes the change of entering it. -/
theorem change?_of_booked {x : Command × Receipt} (h : s.booked? a = some x) :
    ∃ r, s.change? n a = some (.enter s.state.nextId r) ∧
      x = (r.command s.state.nextId, s.state.receipt r) ∧ s.allotted? a = some s.state.nextId ∧
      ∃ owner, a = .call owner r := by
  cases a with
  | call owner r =>
    rw [booked?_call] at h
    split_ifs at h with hc
    exact ⟨r, by simp [change?, hc], (Option.some.inj h).symm, by simp [allotted?, hc], owner, rfl⟩
  | _ => cases h

theorem booked?_of_change {r : Request} (h : s.change? n a = some (.enter id r)) :
    s.booked? a = some (r.command s.state.nextId, s.state.receipt r) := by
  cases a with
  | call owner r' =>
    simp only [change?] at h
    split_ifs at h with hc
    rw [booked?_call, if_neg hc, (Change.enter.inj (Option.some.inj h)).2]
  | _ => simp [change?] at h

theorem allotted?_of_not_booked (h : s.booked? a = none) : s.allotted? a = none := by
  cases a with
  | call owner r =>
    rw [booked?_call] at h
    split_ifs at h with hc
    simp [allotted?, hc]
  | _ => rfl

theorem filterMap_trail_concat {β : Type} (f : Session × Action → Option β) (as : List Action)
    (a : Action) : (trail n s (as ++ [a])).filterMap f =
      (trail n s as).filterMap f ++ (f (run n s as, a)).toList := by
  rw [trail_append, List.filterMap_append]
  cases h : f (run n s as, a) <;> simp [trail, h]

theorem booked_concat (as : List Action) (a : Action) : booked (trail n s (as ++ [a])) =
    booked (trail n s as) ++ ((run n s as).booked? a).toList :=
  filterMap_trail_concat _ as a

theorem changes_concat (as : List Action) (a : Action) : changes n s (as ++ [a]) =
    changes n s as ++ ((run n s as).change? n a).toList :=
  filterMap_trail_concat _ as a

theorem joined_concat (as : List Action) (a : Action) : joined (trail n s (as ++ [a])) =
    joined (trail n s as) ++ ((run n s as).joins? a).toList :=
  filterMap_trail_concat _ as a

theorem length_booked (as : List Action) :
    (booked (trail n s as)).length ≤ as.countP Action.isCall := by
  induction as using List.reverseRecOn with
  | nil => rfl
  | append_singleton as a ih =>
    have hone : ((run n s as).booked? a).toList.length ≤ [a].countP Action.isCall := by
      cases a with
      | call owner r => exact Option.length_toList_le
      | _ => exact Nat.zero_le _
    rw [booked_concat, List.length_append, List.countP_append]
    omega

/-- The next id counts the calls that have begun. -/
theorem nextId_eq (as : List Action) :
    (run n {} as).state.nextId = (booked (trail n {} as)).length + 1 := by
  induction as using List.reverseRecOn with
  | nil => rfl
  | append_singleton as a ih =>
    rw [run_concat, act_nextId, booked_concat, List.length_append, ih]
    cases h : (run n {} as).booked? a with
    | none =>
      rw [allotted?_of_not_booked h]
      rfl
    | some x =>
      obtain ⟨r, -, -, hid, -⟩ := change?_of_booked (n := n) h
      rw [hid, Option.toList_some, Option.toList_some, List.length_singleton,
        List.length_singleton]

theorem ids_booked (as : List Action) : (booked (trail n {} as)).filterMap (·.1.id?) =
    List.range' 1 (booked (trail n {} as)).length := by
  induction as using List.reverseRecOn with
  | nil => rfl
  | append_singleton as a ih =>
    rw [booked_concat, List.filterMap_append, ih, List.length_append]
    cases h : (run n {} as).booked? a with
    | none => simp
    | some x =>
      obtain ⟨r, -, rfl, -, -⟩ := change?_of_booked (n := n) h
      have hid : (r.command (run n {} as).state.nextId).id? =
          some (1 + (booked (trail n {} as)).length) := by
        rw [Request.id?_command, nextId_eq, Nat.add_comm]
      rw [Option.toList_some, List.length_singleton, List.range'_1_concat]
      exact congrArg _ (List.filterMap_cons_some hid)

theorem fits_booked {as : List Action} {x : Command × Receipt}
    (h : x ∈ booked (trail n s as)) : x.2.Fits x.1 := by
  obtain ⟨m, -, hm⟩ := List.mem_filterMap.mp h
  obtain ⟨r, -, rfl, -⟩ := change?_of_booked (n := n) hm
  cases r <;> rfl

/-! ## Entries are those of booked calls -/

/-- One of the registries of a session, with what a change does to it and the receipts that it
gives, told by their ids and tickets. -/
structure Side {σ ω α β : Type} (R : Registry σ ω α β) where
  part : State → σ
  op? : Change → Option ω
  given? : Receipt → Option (Nat × Nat)
  part_initial : part {} = R.empty
  part_tables : ∀ s t : State, s.tables = t.tables → part s = part t
  part_change : ∀ s c, part (s.change c) = (op? c).elim (part s) (R.step (part s))
  enters : ∀ c op id, op? c = some op → (R.tabular op).entered? = some id → ∃ r, c = .enter id r
  gives : ∀ (s : State) r, given? (s.receipt r) =
    ((op? (.enter s.nextId r)).bind fun op => (R.tabular op).entered?).map
      (·, (R.table (part s)).cells.length)

namespace Side

variable {σ ω α β : Type} {R : Registry σ ω α β} (side : Side R)

def ops (n : Nat) (as : List Action) : List ω := (changes n {} as).filterMap side.op?

theorem ops_concat (as : List Action) (a : Action) : side.ops n (as ++ [a]) =
    side.ops n as ++ (((run n {} as).change? n a).bind side.op?).toList := by
  rw [ops, changes_concat, List.filterMap_append]
  cases hc : (run n {} as).change? n a with
  | none => rfl
  | some c => cases ho : side.op? c <;> simp [ops, ho]

theorem part_act (a : Action) : side.part (s.act n a).state =
    ((s.change? n a).bind side.op?).elim (side.part s.state) (R.step (side.part s.state)) := by
  rw [side.part_tables _ _ (act_tables a)]
  cases s.change? n a with
  | none => rfl
  | some c => exact side.part_change s.state c

theorem part_run (as : List Action) :
    side.part (run n {} as).state = R.run (side.ops n as) := by
  induction as using List.reverseRecOn with
  | nil => exact side.part_initial
  | append_singleton as a ih =>
    rw [run_concat, part_act, ops_concat, ih]
    cases ((run n {} as).change? n a).bind side.op? with
    | none => rw [Option.elim, Option.toList_none, List.append_nil]
    | some op => exact Registry.run_append_singleton.symm

/-- A call that gives such a receipt enters its id, with the next ticket, and nothing else enters
an id. -/
theorem given?_booked (a : Action) : ((s.booked? a).bind fun x => side.given? x.2) =
    (((s.change? n a).bind side.op?).bind fun op => (R.tabular op).entered?).map
      (·, (R.table (side.part s.state)).cells.length) := by
  cases h : s.booked? a with
  | some x =>
    obtain ⟨r, hc, rfl, -, -⟩ := change?_of_booked (n := n) h
    rw [hc]
    exact side.gives s.state r
  | none =>
    cases he : ((s.change? n a).bind side.op?).bind fun op => (R.tabular op).entered? with
    | none => rfl
    | some id =>
      -- a change that enters an id is that of a call, which is booked
      obtain ⟨op, hop, hid⟩ := Option.bind_eq_some_iff.mp he
      obtain ⟨c, hc, hcop⟩ := Option.bind_eq_some_iff.mp hop
      obtain ⟨r, rfl⟩ := side.enters c op id hcop hid
      rw [booked?_of_change hc] at h
      cases h

theorem given (as : List Action) : (booked (trail n {} as)).filterMap (side.given? ·.2) =
    (R.registered (side.ops n as)).zipIdx := by
  induction as using List.reverseRecOn with
  | nil => rfl
  | append_singleton as a ih =>
    have hnew := side.given?_booked (n := n) (s := run n {} as) a
    rw [side.part_run, Registry.length_run] at hnew
    have htold : ((run n {} as).booked? a).toList.filterMap (side.given? ·.2) =
        (((run n {} as).booked? a).bind fun x => side.given? x.2).toList := by
      cases (run n {} as).booked? a with
      | none => rfl
      | some x => cases hx : side.given? x.2 <;> simp [hx]
    rw [booked_concat, List.filterMap_append, ih, ops_concat, htold, hnew]
    cases ((run n {} as).change? n a).bind side.op? with
    | none => simp
    | some op =>
      rw [Option.toList_some, Registry.registered_append_singleton, List.zipIdx_append,
        Option.bind_some]
      cases (R.tabular op).entered? <;> simp

theorem mem_given {as : List Action}
    (h : (R.table (side.part (run n {} as).state)).Holds R.ticket id k) :
    ∃ x ∈ booked (trail n {} as), side.given? x.2 = some (id, k) := by
  rw [part_run] at h
  have hmem : (id, k) ∈ (R.registered (side.ops n as)).zipIdx :=
    List.mem_zipIdx_iff_getElem?.mpr (Registry.latest_of_holds h).registered
  rw [← given] at hmem
  exact List.mem_filterMap.mp hmem

theorem id_unique {as : List Action} {x y : Command × Receipt} {i j : Nat}
    (hx : x ∈ booked (trail n {} as)) (hy : y ∈ booked (trail n {} as))
    (hi : side.given? x.2 = some (i, k)) (hj : side.given? y.2 = some (j, k)) : i = j := by
  have hregistered {x : Command × Receipt} {i : Nat} (hx : x ∈ booked (trail n {} as))
      (hi : side.given? x.2 = some (i, k)) : (R.registered (side.ops n as))[k]? = some i := by
    have hmem : (i, k) ∈ (booked (trail n {} as)).filterMap (side.given? ·.2) :=
      List.mem_filterMap.mpr ⟨x, hx, hi⟩
    rw [given] at hmem
    exact List.mem_zipIdx_iff_getElem?.mp hmem
  exact Option.some.inj ((hregistered hx hi).symm.trans (hregistered hy hj))

end Side

theorem Pokes.Op.eq_register {op : Pokes.Op} (h : op.tabular.entered? = some id) :
    op = .register id := by
  cases op <;> simp_all [Pokes.Op.tabular, Table.Op.entered?]

theorem Subscriptions.Op.eq_register {op : Subscriptions.Op} (h : op.tabular.entered? = some id) :
    op = .register id := by
  cases op <;> simp_all [Subscriptions.Op.tabular, Table.Op.entered?]

def pokeSide : Side Pokes.registry where
  part := State.pokes
  op? := Change.pokeOp?
  given? := Receipt.poke?
  part_initial := rfl
  part_tables _ _ h := (Prod.mk.inj h).1
  part_change _ _ := rfl
  enters c op id hop hid := register_of_pokeOp? (op.eq_register hid ▸ hop)
  gives _ r := by cases r <;> rfl

def subscriptionSide : Side Subscriptions.registry where
  part := State.subscriptions
  op? := Change.subscriptionOp?
  given? := Receipt.subscription?
  part_initial := rfl
  part_tables _ _ h := (Prod.mk.inj h).2
  part_change _ _ := rfl
  enters c op id hop hid := register_of_subscriptionOp? (op.eq_register hid ▸ hop)
  gives _ r := by cases r <;> rfl

theorem mem_booked_of_ticket? {as : List Action}
    (h : (run n {} as).state.pokes.ticket? id = some k) :
    ∃ c, (c, .poke id k) ∈ booked (trail n {} as) := by
  obtain ⟨⟨c, receipt⟩, hx, hreceipt⟩ := pokeSide.mem_given ⟨k, mem_of_lookup h, rfl⟩
  cases receipt <;> cases hreceipt
  exact ⟨c, hx⟩

theorem mem_booked_of_entry? {as : List Action} {e : Entry}
    (h : Subscriptions.entry? (run n {} as).state.subscriptions id = some e) :
    ∃ c, (c, .subscription id e.ticket) ∈ booked (trail n {} as) := by
  obtain ⟨⟨c, receipt⟩, hx, hreceipt⟩ := subscriptionSide.mem_given ⟨e, mem_of_lookup h, rfl⟩
  cases receipt <;> cases hreceipt
  exact ⟨c, hx⟩

/-! ## Commands are those of booked calls -/

theorem commands_joined (as : List Action) :
    (joined (trail n s as)).filterMap (·.freight.command?) =
      (booked (trail n s as)).map Prod.fst := by
  induction as using List.reverseRecOn with
  | nil => rfl
  | append_singleton as a ih =>
    have hstep : ((run n s as).joins? a).toList.filterMap (·.freight.command?) =
        ((run n s as).booked? a).toList.map Prod.fst := by
      cases a with
      | call owner r =>
        rw [booked?_call, joins?]
        split_ifs <;> rfl
      | _ => rfl
    rw [joined_concat, booked_concat, List.filterMap_append, List.map_append, ih, hstep]

theorem mem_joined_of_mem_errands {as : List Action} {e : Errand}
    (h : e ∈ (run n {} as).line.errands) : e ∈ joined (trail n {} as) := by
  induction as using List.reverseRecOn with
  | nil => cases h
  | append_singleton as a ih =>
    rw [run_concat] at h
    have hafter := List.mem_append_right ((run n {} as).leaves? a).toList h
    rw [errands_act] at hafter
    rw [joined_concat]
    rcases List.mem_append.mp hafter with hold | hnew
    · exact List.mem_append_left _ (ih hold)
    · exact List.mem_append_right _ hnew

theorem mem_booked_of_joined {as : List Action} {e : Errand} {c : Command}
    (h : e ∈ joined (trail n s as)) (hc : e.freight.command? = some c) :
    ∃ receipt, (c, receipt) ∈ booked (trail n s as) := by
  have hmem : c ∈ (joined (trail n s as)).filterMap (·.freight.command?) :=
    List.mem_filterMap.mpr ⟨e, h, hc⟩
  rw [commands_joined] at hmem
  obtain ⟨⟨c, receipt⟩, hx, rfl⟩ := List.mem_map.mp hmem
  exact ⟨receipt, hx⟩

theorem command_of_turn {e : Errand} {batch : List Command} {c : Command}
    (h : s.turn? a = some (e, some batch)) (hc : c ∈ batch) (hid : c.id?.isSome = true) :
    e.freight.command? = some c := by
  rw [cargo_of_turn h, State.cargo, List.mem_append] at hc
  rcases hc with hack | hc
  · obtain ⟨d, -, rfl⟩ := Option.map_eq_some_iff.mp (Option.mem_toList.mp hack)
    cases hid
  · exact Option.mem_toList.mp hc

theorem mem_booked_of_put {as : List Action} {batch : List Command} {c : Command}
    (h : batch ∈ puts (trail n {} as)) (hc : c ∈ batch) (hid : c.id?.isSome = true) :
    ∃ receipt, (c, receipt) ∈ booked (trail n {} as) := by
  rw [puts_eq_turns] at h
  obtain ⟨⟨e, b⟩, hturn, rfl⟩ := List.mem_filterMap.mp h
  obtain ⟨m, -, hm⟩ := List.mem_filterMap.mp hturn
  have hqueued := (queued_initial.run (n := n) as).order
  rw [List.nil_append, List.nil_append] at hqueued
  have hjoined : e ∈ joined (trail n {} as) :=
    hqueued ▸ List.mem_append_left _ (List.mem_map_of_mem (f := Prod.fst) hturn)
  exact mem_booked_of_joined hjoined (command_of_turn hm hc hid)

theorem nodup_sentIds (as : List Action) : (sentIds (trail n {} as)).Nodup := by
  have hqueued := queued_initial.run (n := n) as
  have hall := hqueued.ascending
  rw [← hqueued.order, List.nil_append, List.filterMap_append] at hall
  exact ((List.pairwise_append.mp hall).1.sublist (ids_of_turns as)).imp Nat.ne_of_lt

/-! ## Ids of booked calls -/

theorem bounds_of_booked {as : List Action} {x : Command × Receipt}
    (hx : x ∈ booked (trail n {} as)) (hid : x.1.id? = some id) :
    1 ≤ id ∧ id < (run n {} as).state.nextId := by
  have hmem : id ∈ (booked (trail n {} as)).filterMap (·.1.id?) :=
    List.mem_filterMap.mpr ⟨x, hx, hid⟩
  rw [ids_booked, List.mem_range'_1] at hmem
  rw [nextId_eq]
  omega

theorem booked_unique {as : List Action} {x y : Command × Receipt}
    (hx : x ∈ booked (trail n {} as)) (hy : y ∈ booked (trail n {} as))
    (hidx : x.1.id? = some id) (hidy : y.1.id? = some id) : x = y := by
  have hnodup : ((booked (trail n {} as)).filterMap (·.1.id?)).Nodup :=
    ids_booked (n := n) as ▸ List.nodup_range'
  exact eq_of_nodup_filterMap hnodup hx hy hidx hidy

theorem Receipt.Fits.id?_eq {receipt : Receipt} {c : Command} (h : receipt.Fits c) :
    c.id? = some receipt.id := by
  cases receipt <;> cases c <;> first | exact h.elim | exact congrArg some (Eq.symm h)

/-- Whatever is entered under the id of a booked call is what its receipt tells of. -/
theorem receipt_of_ticket? {as : List Action} {x : Command × Receipt}
    (hx : x ∈ booked (trail n {} as)) (hid : x.1.id? = some id)
    (h : (run n {} as).state.pokes.ticket? id = some k) : x.2 = .poke id k := by
  obtain ⟨c, hc⟩ := mem_booked_of_ticket? h
  rw [booked_unique hx hc hid (fits_booked hc).id?_eq]

theorem receipt_of_entry? {as : List Action} {x : Command × Receipt} {e : Entry}
    (hx : x ∈ booked (trail n {} as)) (hid : x.1.id? = some id)
    (h : Subscriptions.entry? (run n {} as).state.subscriptions id = some e) :
    x.2 = .subscription id e.ticket := by
  obtain ⟨c, hc⟩ := mem_booked_of_entry? h
  rw [booked_unique hx hc hid (fits_booked hc).id?_eq]

theorem bounds_of_entered {as : List Action} (h : ¬ (run n {} as).state.Absent id) :
    1 ≤ id ∧ id < (run n {} as).state.nextId := by
  cases hp : (run n {} as).state.pokes.ticket? id with
  | some k =>
    obtain ⟨c, hc⟩ := mem_booked_of_ticket? hp
    exact bounds_of_booked hc (fits_booked hc).id?_eq
  | none =>
    cases hs : Subscriptions.entry? (run n {} as).state.subscriptions id with
    | some e =>
      obtain ⟨c, hc⟩ := mem_booked_of_entry? hs
      exact bounds_of_booked hc (fits_booked hc).id?_eq
    | none => exact absurd ⟨hp, hs⟩ h

theorem ticket?_or_entry?_eq_none (as : List Action) (id : Nat) :
    (run n {} as).state.pokes.ticket? id = none ∨
      Subscriptions.entry? (run n {} as).state.subscriptions id = none := by
  cases hp : (run n {} as).state.pokes.ticket? id with
  | none => exact .inl rfl
  | some k =>
    refine .inr (Option.eq_none_iff_forall_ne_some.mpr fun e he => ?_)
    obtain ⟨c, hc⟩ := mem_booked_of_ticket? hp
    cases receipt_of_entry? hc (fits_booked hc).id?_eq he

/-- Nothing is entered under the id of a command that registers nothing. -/
theorem absent_of_bare {as : List Action} {c : Command} {i : Nat}
    (h : (c, .bare i) ∈ booked (trail n {} as)) : (run n {} as).state.Absent i := by
  have hid := (fits_booked h).id?_eq
  constructor
  · refine Option.eq_none_iff_forall_ne_some.mpr fun k hk => ?_
    cases receipt_of_ticket? h hid hk
  · refine Option.eq_none_iff_forall_ne_some.mpr fun e he => ?_
    cases receipt_of_entry? h hid he

def Receipt.entries : Receipt → List (Nat × Nat) × List (Nat × Entry)
  | .poke id ticket => ([(id, ticket)], [])
  | .subscription id ticket => ([], [(id, { ticket })])
  | .bare _ => ([], [])

/-- A call finds nothing under its id, and adds what it registers to the entries that there are. -/
theorem entries_of_call {as : List Action} {owner : Nat} {r : Request} {receipt : Receipt}
    (h : (run n {} as).call? owner r = some (receipt, t)) :
    (run n {} as).state.Absent receipt.id ∧
      t.state.pokes.entries = receipt.entries.1 ++ (run n {} as).state.pokes.entries ∧
      t.state.subscriptions.entries =
        receipt.entries.2 ++ (run n {} as).state.subscriptions.entries := by
  have ha : (run n {} as).state.Absent (run n {} as).state.nextId := absent_of_le le_rfl
  rw [call?_of_open (call?_eq_some (n := n) h).2.1] at h
  obtain ⟨rfl, rfl⟩ := Prod.mk.inj (Option.some.inj h)
  refine ⟨(State.id_receipt _ r).symm ▸ ha, ?_⟩
  cases r with
  | poke ship app mark json =>
    refine ⟨?_, rfl⟩
    change ((run n {} as).state.pokes.register _).2.entries = _
    rw [Pokes.register_snd, Pokes.close, ha.poke]
    rfl
  | subscribe ship app path =>
    refine ⟨rfl, ?_⟩
    change ((run n {} as).state.subscriptions.register _).2.entries = _
    rw [Subscriptions.register_snd, Subscriptions.close, ha.subscription]
    rfl
  | unsubscribe subscription => exact ⟨rfl, rfl⟩

/-! ## What an event changes -/

theorem Table.Beside.lookup {α β : Type} {ticket : α → Nat} {i : Nat} {t u : Table α β}
    (h : Beside ticket id t u) (hi : i ≠ id) : u.entries.lookup i = t.entries.lookup i := by
  have hu := lookup_filter_ne u.entries id i
  have ht := lookup_filter_ne t.entries id i
  rw [h.entries, ht, if_neg hi, if_neg hi] at hu
  exact hu.symm

/-- A change at an addressee changes what the tables hold for a receipt only if the receipt has the
addressee's id, or its ticket stands under that id. -/
theorem holding_of_changedAt {s u : State} {b : Addressee} {receipt : Receipt}
    (h : s.ChangedAt b u) (hne : u.holding receipt ≠ s.holding receipt) :
    (∃ id i k, b = .poke id ∧ receipt = .poke i k ∧
      (i = id ∨ s.pokes.ticket? id = some k)) ∨
    ∃ id i k, b = .subscription id ∧ receipt = .subscription i k ∧
      (i = id ∨ ∃ e, s.subscriptions.entry? id = some e ∧ e.ticket = k) := by
  cases h with
  | @poke any m id p hb =>
    cases receipt with
    | poke i k =>
      refine .inl ⟨id, i, k, rfl, rfl, ?_⟩
      by_contra hno
      rw [not_or] at hno
      have hentry : p.ticket? i = s.pokes.ticket? i := hb.lookup hno.1
      have hcell : p.slots[k]? = s.pokes.slots[k]? := hb.cell k fun a ha hak => hno.2 (hak ▸ ha)
      refine hne ?_
      simp only [State.holding, Pokes.slot, List.getD_eq_getElem?_getD, hentry, hcell]
    | _ => exact absurd rfl hne
  | @subscription any m id p hb =>
    cases receipt with
    | subscription i k =>
      refine .inr ⟨id, i, k, rfl, rfl, ?_⟩
      by_contra hno
      rw [not_or] at hno
      have hentry : p.entry? i = s.subscriptions.entry? i := hb.lookup hno.1
      have hcell : p.mailboxes[k]? = s.subscriptions.mailboxes[k]? :=
        hb.cell k fun a ha hak => hno.2 ⟨a, ha, hak⟩
      refine hne ?_
      simp only [State.holding, Subscriptions.mailbox, List.getD_eq_getElem?_getD, hentry, hcell]
    | _ => exact absurd rfl hne

theorem holding_of_tables {s u : State} (h : s.tables = u.tables) (receipt : Receipt) :
    s.holding receipt = u.holding receipt := by
  obtain ⟨hp, hs⟩ := Prod.mk.inj h
  cases receipt <;> simp only [State.holding, hp, hs]

/-- An event that changes what the tables hold for a booked call brings a frame for that call. -/
theorem frame_of_holding {as : List Action} {e : EventStream.Event} {c : Command}
    {receipt : Receipt} (hx : (c, receipt) ∈ booked (trail n {} as))
    (hne : ((run n {} as).act n (.receive e)).state.holding receipt ≠
      (run n {} as).state.holding receipt) :
    ∃ f, (run n {} as).dispatched? (.receive e) = some f ∧
      receipt.addressee? = some f.addressee := by
  have htables := act_receive_tables (n := n) (s := run n {} as) e
  cases hf : (run n {} as).dispatched? (.receive e) with
  | none =>
    rw [change?, hf] at htables
    exact absurd (holding_of_tables htables receipt) hne
  | some f =>
    rw [change?, hf, Option.map_some, Option.elim, ← State.dispatch_tables] at htables
    rw [holding_of_tables htables] at hne
    refine ⟨f, rfl, ?_⟩
    rcases holding_of_changedAt (changedAt_dispatch (run n {} as).state _ _ f) hne with
      ⟨id, i, k, hb, rfl, rfl | hk⟩ | ⟨id, i, k, hb, rfl, rfl | ⟨d, hd, rfl⟩⟩
    · rw [hb]
      rfl
    · obtain ⟨b, hbooked⟩ := mem_booked_of_ticket? hk
      rw [hb, pokeSide.id_unique hbooked hx rfl rfl]
      rfl
    · rw [hb]
      rfl
    · obtain ⟨b, hbooked⟩ := mem_booked_of_entry? hd
      rw [hb, subscriptionSide.id_unique hbooked hx rfl rfl]
      rfl

theorem Receipt.Fits.id?_of_addressee {receipt : Receipt} {c : Command} {b : Addressee}
    (h : receipt.Fits c) (hb : receipt.addressee? = some b) : c.id? = some b.id := by
  rw [h.id?_eq]
  cases receipt <;> cases hb <;> rfl

/-- As long as there have been fewer than 2 ^ 64 - 1 calls the next id is one of 64 bits. In any run
the ids in the tables, in the batches and on the line are those of calls that have begun, and all of
them differ. No id stands in both tables, nothing is entered under the id of an `unsubscribe`, and
the commands in the batches have different ids. So a call that begins finds nothing under the id
that it takes and leaves all entries where they are, and an event changes what the tables hold for a
call only if it brings a frame with the id of that call's command. -/
theorem ids_stand_for_calls (n : Nat) (as : List Action)
    (hcalls : as.countP Action.isCall < 2 ^ 64 - 1) :
    let tr := trail n {} as
    let s := run n {} as
    s.state.nextId < 2 ^ 64 ∧
    (∀ id, (¬ s.state.Absent id ∨ id ∈ sentIds tr ∨ id ∈ s.line.ids) →
      1 ≤ id ∧ id < s.state.nextId) ∧
    (∀ id, s.state.pokes.ticket? id = none ∨ s.state.subscriptions.entry? id = none) ∧
    (sentIds tr).Nodup ∧
    (∀ c : Command, c.id?.isSome = true →
      ((∃ batch ∈ puts tr, c ∈ batch) ∨ ∃ e ∈ s.line.errands, e.freight = .command c) →
      ∃ receipt, (c, receipt) ∈ booked tr) ∧
    (∀ x ∈ booked tr, ∀ y ∈ booked tr, x.1.id? = y.1.id? → x = y) ∧
    (∀ id subscription receipt, (.unsubscribe id subscription, receipt) ∈ booked tr →
      s.state.Absent id) ∧
    (∀ owner r receipt t, s.call? owner r = some (receipt, t) → s.state.Absent receipt.id ∧
      t.state.pokes.entries = receipt.entries.1 ++ s.state.pokes.entries ∧
      t.state.subscriptions.entries = receipt.entries.2 ++ s.state.subscriptions.entries) ∧
    ∀ e, ∀ x ∈ booked tr, (s.act n (.receive e)).state.holding x.2 ≠ s.state.holding x.2 →
      ∃ f, s.dispatched? (.receive e) = some f ∧ x.2.addressee? = some f.addressee ∧
        x.1.id? = some f.addressee.id := by
  intro tr s
  have hbooked (c : Command) (hid : c.id?.isSome = true)
      (hc : (∃ batch ∈ puts tr, c ∈ batch) ∨ ∃ e ∈ s.line.errands, e.freight = .command c) :
      ∃ receipt, (c, receipt) ∈ booked tr := by
    rcases hc with ⟨batch, hb, hc⟩ | ⟨e, he, hf⟩
    · exact mem_booked_of_put hb hc hid
    · exact mem_booked_of_joined (mem_joined_of_mem_errands he) (by rw [hf]; rfl)
  refine ⟨?_, ?_, ticket?_or_entry?_eq_none as, nodup_sentIds as, hbooked, ?_, ?_,
    fun _ _ _ _ => entries_of_call, ?_⟩
  · have hle := length_booked (n := n) (s := {}) as
    have hnext : s.state.nextId = (booked (trail n {} as)).length + 1 := nextId_eq as
    omega
  · rintro id (hentered | hsent | hline)
    · exact bounds_of_entered hentered
    · obtain ⟨batch, hb, hid⟩ := List.mem_flatMap.mp hsent
      obtain ⟨c, hc, hcid⟩ := List.mem_filterMap.mp hid
      obtain ⟨receipt, hx⟩ := hbooked c (by rw [hcid]; rfl) (.inl ⟨batch, hb, hc⟩)
      exact bounds_of_booked hx hcid
    · obtain ⟨e, he, hid⟩ := List.mem_filterMap.mp hline
      obtain ⟨c, hf, hcid⟩ := Option.bind_eq_some_iff.mp hid
      obtain ⟨receipt, hx⟩ := mem_booked_of_joined (mem_joined_of_mem_errands he) hf
      exact bounds_of_booked hx hcid
  · intro x hx y hy hxy
    have hid := (fits_booked hx).id?_eq
    exact booked_unique hx hy hid (hxy ▸ hid)
  · intro id subscription receipt hx
    have hfits := fits_booked hx
    cases receipt with
    | bare i =>
      obtain rfl : i = id := hfits
      exact absent_of_bare hx
    | _ => exact hfits.elim
  · intro e x hx hne
    obtain ⟨f, hf, hb⟩ := frame_of_holding hx hne
    exact ⟨f, hf, hb, (fits_booked hx).id?_of_addressee hb⟩

/-- A poke is answered while a subscription is open and an `unsubscribe` waits. -/
theorem ids_stand_for_calls_answered :
    let as : List Action := [.call 0 (.poke "zod" "hood" "helm-hi" .null),
      .call 1 (.subscribe "zod" "a" "/"), .call 2 (.unsubscribe 2), .connect, .awaken, .opened,
      .proceed, .settle (.ok ()), .proceed]
    let answer : EventStream.Event :=
      { id := some "1", data := "\x7b\"id\":1,\"response\":\"poke\",\"ok\":null\x7d" }
    let s := run 3 {} as
    as.countP Action.isCall < 2 ^ 64 - 1 ∧ sentIds (trail 3 {} as) = [1, 2] ∧
      s.state.Absent 3 ∧
      (s.act 3 (.receive answer)).state.holding (.poke 1 0) ≠ s.state.holding (.poke 1 0) ∧
      ∃ f, s.dispatched? (.receive answer) = some f ∧ f.addressee = .poke 1 := by
  intro as answer s
  have hcalls : as.countP Action.isCall < 2 ^ 64 - 1 := by decide
  obtain ⟨-, -, -, -, -, -, hbare, -, hframe⟩ := ids_stand_for_calls 3 as hcalls
  have hpoke : (.poke 1 "zod" "hood" "helm-hi" .null, .poke 1 0) ∈ booked (trail 3 {} as) :=
    List.mem_of_getElem? (i := 0) rfl
  have hunsubscribe : (.unsubscribe 3 2, .bare 3) ∈ booked (trail 3 {} as) :=
    List.mem_of_getElem? (i := 2) rfl
  have hheld :
      (s.act 3 (.receive answer)).state.holding (.poke 1 0) ≠ s.state.holding (.poke 1 0) := by
    intro hsame
    have hentry : (s.act 3 (.receive answer)).state.pokes.ticket? 1 = s.state.pokes.ticket? 1 :=
      (Prod.mk.inj (Sum.inl.inj (Option.some.inj hsame))).1
    have hgone : (s.act 3 (.receive answer)).state.pokes.ticket? 1 = none := by decide +kernel
    rw [hentry] at hgone
    cases hgone
  obtain ⟨f, hf, hb, -⟩ := hframe answer _ hpoke hheld
  exact ⟨hcalls, rfl, hbare 3 2 _ hunsubscribe, hheld, f, hf, (Option.some.inj hb).symm⟩

end Session

end ShipBridge
