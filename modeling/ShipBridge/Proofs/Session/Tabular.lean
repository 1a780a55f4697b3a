import ShipBridge.Proofs.Session.Pokes
import ShipBridge.Proofs.Session.Subscriptions

/-!
# Pokes and subscriptions as tables

Seen as tables, the waiting pokes have slots for cells and the open subscriptions have mailboxes. A
poke's entry is only ever taken out, with something put into its slot; a subscription's entry may
also count one more diff. Each operation on them is an operation on the table.
-/

namespace ShipBridge.Session

/-! ## The waiting pokes -/

namespace Pokes

def table (p : Pokes) : Table Nat Slot := ⟨p.entries, p.slots⟩

theorem table_inj {p q : Pokes} (h : p.table = q.table) : p = q := by
  cases p
  cases q
  simpa [table] using h

def put (x : Slot) : Slot → Slot
  | .waiting => x
  | s => s

/-- The entry is taken out, and something is put into the slot of its ticket. -/
def takeOut (x : Slot) (_ : Nat) (s : Slot) : (Nat → Option Nat) × Slot := (fun _ => none, put x s)

variable (p : Pokes)

theorem slots_settle (t : Nat) (x : Slot) :
    (p.settle t x).slots = p.slots.set t (put x (p.slot t)) := by
  have hset : p.slots.set t (p.slot t) = p.slots := set_getD p.slots t .discarded
  unfold settle
  cases hs : p.slot t with
  | waiting => rfl
  | _ => exact (hs ▸ hset).symm

theorem table_settle (t : Nat) (x : Slot) :
    (p.settle t x).table = p.table.write .discarded (put x) t := by
  rw [table, settle_entries, slots_settle]
  rfl

theorem table_close (id : Nat) (x : Slot) :
    (p.close id x).table = p.table.amend (fun t => t) .discarded (takeOut x) id := by
  unfold close
  cases h : p.ticket? id with
  | none => exact (Table.amend_of_none _ (t := p.table) h).symm
  | some t =>
    rw [Table.amend_of_some (takeOut x) (t := p.table) h]
    simp only [Option.elim, table, takeOut, erase, filterMap_tend_none, settle_entries,
      slots_settle]
    rfl

def Op.tabular : Op → Table.Op Nat Slot
  | .register id => .enter id (fun t => t) .waiting (takeOut .discarded)
  | .resolve id a => .amend id (takeOut (.answered a))
  | .remove id => .amend id (takeOut .discarded)
  | .failAll fault => .clear (put (.answered (.error fault)))
  | .abandon t => .write t (put .abandoned)

theorem table_apply (op : Op) :
    (p.apply op).table = p.table.apply (fun t => t) .discarded op.tabular := by
  cases op with
  | register id =>
    have hc := p.table_close id .discarded
    rw [apply, register_snd, Op.tabular, Table.apply, ← hc]
    rfl
  | resolve id a => rw [apply, resolve_snd, table_close]; rfl
  | remove id => rw [apply, remove_snd, table_close]; rfl
  | failAll fault =>
    have hfold (es : List (Nat × Nat)) (p : Pokes) :
        (es.foldl (fun p e => p.settle e.2 (.answered (.error fault))) p).table =
          es.foldl (fun u e => u.write .discarded (put (.answered (.error fault))) e.2)
            p.table := by
      induction es generalizing p with
      | nil => rfl
      | cons e es ih => rw [List.foldl_cons, ih, table_settle, List.foldl_cons]
    rw [apply, failAll_snd, Op.tabular, Table.apply]
    exact congrArg (fun u => { u with entries := [] }) (hfold p.entries p)
  | abandon t =>
    rw [apply, Op.tabular, Table.apply, ← table_settle]
    unfold abandon settle
    cases p.slot t <;> rfl

theorem Op.keeps_tabular (op : Op) : op.tabular.Keeps fun t => t := by
  cases op <;> simp [tabular, Table.Op.Keeps, takeOut]

end Pokes

/-! ## The open subscriptions -/

def Mailbox.put (m : Mailbox) (x : Notice) : Mailbox :=
  if m.abandoned then m else { m with notices := m.notices ++ [x] }

def Mailbox.detached (m : Mailbox) : Mailbox := { m with attached := false }

def Mailbox.drop (m : Mailbox) : Mailbox :=
  if m.abandoned || !m.attached then m else { m with abandoned := true }

namespace Subscriptions

def table (s : Subscriptions) : Table Entry Mailbox := ⟨s.entries, s.mailboxes⟩

theorem table_inj {s t : Subscriptions} (h : s.table = t.table) : s = t := by
  cases s
  cases t
  simpa [table] using h

/-- What an operation makes of the entry that it is for, and of the mailbox. -/
abbrev Effect := Entry → Mailbox → (Entry → Option Entry) × Mailbox

def removal : Effect := fun _ m => (fun _ => none, m.detached)

def ending (x : Notice) : Effect := fun _ m => (fun _ => none, (m.put x).detached)

def delivery (json : Json) : Effect := fun _ m =>
  if m.abandoned then (fun _ => none, m.detached)
  else (fun e => some { e with diffs := e.diffs + 1 }, m.put (.diff json))

def refusal (message : String) : Effect := fun e m =>
  if e.diffs = 0 then ending (.refused message) e m else (some, m)

def Op.tabular : Op → Table.Op Entry Mailbox
  | .register id => .enter id (fun ticket => { ticket }) {} removal
  | .deliver id json => .amend id (delivery json)
  | .reject id message => .amend id (refusal message)
  | .quit id => .amend id (ending .quit)
  | .remove id => .amend id removal
  | .terminateAll reason => .clear fun m => (m.put (.refused reason)).detached
  | .abandon t => .write t Mailbox.drop

variable (s : Subscriptions)

theorem mailboxes_post (t : Nat) (x : Notice) :
    (s.post t x).mailboxes = s.mailboxes.set t ((s.mailbox t).put x) := by
  unfold post Mailbox.put
  by_cases ha : (s.mailbox t).abandoned = true
  · simp only [ha, if_true]
    exact (set_getD s.mailboxes t _).symm
  · simp only [ha]
    rfl

theorem mailboxes_finish (t : Nat) (x : Notice) :
    (s.finish t (some x)).mailboxes = s.mailboxes.set t ((s.mailbox t).put x).detached := by
  change (s.post t x).mailboxes.set t ((s.post t x).mailboxes.getD t _).detached = _
  rw [mailboxes_post]
  exact set_set_getD _ _ _ _ Mailbox.detached

theorem entries_bump (id : Nat) : (s.bump id).entries =
    s.entries.filterMap (tend id fun e => some { e with diffs := e.diffs + 1 }) := by
  rw [bump, ← List.filterMap_eq_map]
  refine List.filterMap_congr fun e _ => ?_
  obtain ⟨m, a⟩ := e
  by_cases hm : m = id <;> simp [tend, hm]

/-- The table after the entry under `id` and its mailbox have been amended. -/
def amended (f : Effect) (id : Nat) : Table Entry Mailbox :=
  s.table.amend Entry.ticket { attached := false } f id

variable {s} {id : Nat} {e : Entry} (f : Effect)

theorem amended_of_none (h : s.entry? id = none) : s.amended f id = s.table :=
  Table.amend_of_none f (t := s.table) h

theorem amended_of_some (h : s.entry? id = some e) : s.amended f id =
    ⟨s.entries.filterMap (tend id (f e (s.mailbox e.ticket)).1),
      s.mailboxes.set e.ticket (f e (s.mailbox e.ticket)).2⟩ :=
  Table.amend_of_some f (t := s.table) h

theorem amended_same (id : Nat) : s.amended (fun _ m => (some, m)) id = s.table := by
  cases h : s.entry? id with
  | none => exact amended_of_none _ h
  | some e =>
    rw [amended_of_some _ h, filterMap_tend_some]
    exact congrArg _ (set_getD _ _ _)

theorem table_close_none (id : Nat) : (s.close id none).table = s.amended removal id := by
  unfold close
  cases h : s.entry? id with
  | none => exact (amended_of_none _ h).symm
  | some e =>
    rw [amended_of_some _ h, removal, filterMap_tend_none]
    rfl

theorem table_close_some (id : Nat) (x : Notice) :
    (s.close id (some x)).table = s.amended (ending x) id := by
  unfold close
  cases h : s.entry? id with
  | none => exact (amended_of_none _ h).symm
  | some e =>
    rw [amended_of_some _ h, ending, filterMap_tend_none, ← mailboxes_finish,
      ← s.finish_entries e.ticket (some x)]
    rfl

theorem table_deliver (id : Nat) (json : Json) :
    (s.deliver id json).2.table = s.amended (delivery json) id := by
  rw [deliver_snd]
  cases h : s.entry? id with
  | none => exact (amended_of_none _ h).symm
  | some e =>
    rw [amended_of_some _ h, Option.elim, delivery]
    split_ifs
    · rw [table_close_none, amended_of_some _ h, removal]
    · rw [table, post_entries, entries_bump, mailboxes_post]
      rfl

theorem table_reject (id : Nat) (message : String) :
    (s.reject id message).2.table = s.amended (refusal message) id := by
  rw [reject_snd]
  cases h : s.entry? id with
  | none => exact (amended_of_none _ h).symm
  | some e =>
    rw [amended_of_some _ h, refusal]
    by_cases hd : e.diffs = 0
    · simp only [Option.any_some, hd, decide_true, if_true]
      rw [table_close_some, amended_of_some _ h]
    · simp only [Option.any_some, hd, decide_false, if_false]
      exact (amended_same id).symm.trans (amended_of_some _ h)

theorem table_apply (op : Op) : (s.apply op).table =
    s.table.apply Entry.ticket { attached := false } op.tabular := by
  cases op with
  | register id =>
    have hc := table_close_none (s := s) id
    rw [apply, register_snd, Op.tabular, Table.apply]
    change _ =
      (⟨_ :: (s.amended removal id).entries, (s.amended removal id).cells ++ _⟩ : Table _ _)
    rw [← hc]
    rfl
  | deliver id json => exact table_deliver id json
  | reject id message => exact table_reject id message
  | quit id =>
    rw [apply, quit, terminate_snd]
    exact table_close_some id .quit
  | remove id =>
    rw [apply, remove_snd]
    exact table_close_none id
  | terminateAll reason =>
    let g (m : Mailbox) : Mailbox := (m.put (.refused reason)).detached
    have hfold (es : List (Nat × Entry)) (s : Subscriptions) :
        (es.foldl (fun s e => s.finish e.2.ticket (some (.refused reason))) s).table =
          es.foldl (fun u e => u.write { attached := false } g e.2.ticket) s.table := by
      induction es generalizing s with
      | nil => rfl
      | cons e es ih =>
        rw [List.foldl_cons, ih, List.foldl_cons]
        congr 1
        rw [table, mailboxes_finish, finish_entries]
        rfl
    rw [apply, terminateAll_snd, Op.tabular, Table.apply]
    exact congrArg (fun u => { u with entries := [] }) (hfold s.entries s)
  | abandon t =>
    rw [apply, Op.tabular, Table.apply, Table.write]
    change _ = (⟨s.entries, s.mailboxes.set t (s.mailbox t).drop⟩ : Table Entry Mailbox)
    unfold abandon Mailbox.drop
    by_cases ha : ((s.mailbox t).abandoned || !(s.mailbox t).attached) = true
    · simp only [ha, if_true]
      exact congrArg _ (set_getD _ _ _).symm
    · simp only [ha]
      rfl

theorem Op.keeps_tabular (op : Op) : op.tabular.Keeps Entry.ticket := by
  cases op with
  | register id => simp [tabular, Table.Op.Keeps, removal]
  | deliver id json =>
    intro e m c d h
    rw [delivery] at h
    split_ifs at h
    exact Option.some.inj h ▸ rfl
  | reject id message =>
    intro e m c d h
    rw [refusal] at h
    split_ifs at h
    · cases h
    · exact Option.some.inj h ▸ rfl
  | _ => simp [tabular, Table.Op.Keeps, removal, ending]

end Subscriptions

end ShipBridge.Session
