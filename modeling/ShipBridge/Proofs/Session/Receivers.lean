import Mathlib.Data.Set.Card
import ShipBridge.Proofs.Session.Tabular

/-!
# Receivers of answers and notices

Every registration, of a poke or of a subscription, hands out a receiver: the ticket of the entry
that it makes. The receivers are numbered in the order of the registrations. A receiver is attached
as long as the entry stands, and one operation detaches it: the entry is answered, terminated,
removed, replaced by a registration under the same id, cleared with all the others, or dropped
because a diff found no holder. Nothing attaches it again, and nothing reaches it after that.

This is shown of the two kinds of registries at once, from what their operations are as operations
on a table: which entry an operation takes out, that it leaves a closed cell behind, and that it
leaves a closed cell alone.
-/

namespace ShipBridge.Session

/-! ## One operation on a table -/

namespace Table

variable {α β : Type}

def Holds (ticket : α → Nat) (t : Table α β) (id k : Nat) : Prop :=
  ∃ a, (id, a) ∈ t.entries ∧ ticket a = k

def cell (blank : β) (t : Table α β) (k : Nat) : β := t.cells.getD k blank

/-- Does an operation take out the entry `a` under `id`, with `b` in the cell of its ticket? -/
def Op.Takes (id : Nat) (a : α) (b : β) : Op α β → Prop
  | .enter i _ _ f | .amend i f => i = id ∧ (f a b).1 a = none
  | .clear _ => True
  | .write .. => False

/-- An entry that an operation takes out leaves a closed cell behind; a cell that is closed already
is not changed by being written to. -/
def Op.Closes (closed : β → Prop) : Op α β → Prop
  | .enter _ _ _ f | .amend _ f => ∀ a b, (f a b).1 a = none → closed (f a b).2
  | .clear g => ∀ b, closed (g b)
  | .write _ g => ∀ b, closed b → g b = b

variable {ticket : α → Nat} {blank : β} {t : Table α β} {id k : Nat} {closed : β → Prop}
  (f : α → β → (α → Option α) × β) (g : β → β)

/-! ### Writing to cells -/

theorem cell_write_of_ne {m : Nat} (h : k ≠ m) :
    (t.write blank g m).cell blank k = t.cell blank k :=
  getD_set_of_ne _ _ _ h.symm _

theorem cell_write_self (h : k < t.cells.length) :
    (t.write blank g k).cell blank k = g (t.cell blank k) := by
  simp [cell, write, List.getD_eq_getElem?_getD, h]

theorem length_foldl_write (es : List (Nat × α)) (t : Table α β) :
    (es.foldl (fun u e => u.write blank g (ticket e.2)) t).cells.length = t.cells.length := by
  induction es generalizing t with
  | nil => rfl
  | cons e es ih => rw [List.foldl_cons, ih, write, List.length_set]

theorem cell_foldl_write_of_ne {es : List (Nat × α)} (h : ∀ e ∈ es, ticket e.2 ≠ k)
    (t : Table α β) : (es.foldl (fun u e => u.write blank g (ticket e.2)) t).cell blank k =
      t.cell blank k := by
  induction es generalizing t with
  | nil => rfl
  | cons e es ih =>
    rw [List.foldl_cons, ih fun e he => h e (List.mem_cons_of_mem _ he),
      cell_write_of_ne g (h e List.mem_cons_self).symm]

theorem closed_foldl_write {es : List (Nat × α)} (hg : ∀ b, closed (g b))
    (hk : k < t.cells.length) (h : closed (t.cell blank k) ∨ ∃ e ∈ es, ticket e.2 = k) :
    closed ((es.foldl (fun u e => u.write blank g (ticket e.2)) t).cell blank k) := by
  induction es generalizing t with
  | nil => exact h.resolve_right (by simp)
  | cons e es ih =>
    rw [List.foldl_cons]
    refine ih (by rwa [write, List.length_set]) ?_
    by_cases he : ticket e.2 = k
    · rw [he, cell_write_self g hk]
      exact .inl (hg _)
    · rw [cell_write_of_ne g (Ne.symm he)]
      refine h.imp_right ?_
      rintro ⟨x, hx, hxk⟩
      exact ⟨x, (List.mem_cons.mp hx).resolve_left fun heq => he (heq ▸ hxk), hxk⟩

/-! ### Amending an entry -/

theorem Holds.of_amend (hf : ∀ a b c d, (f a b).1 c = some d → ticket d = ticket c) {i : Nat}
    (h : (t.amend ticket blank f i).Holds ticket id k) : t.Holds ticket id k := by
  cases hl : t.entries.lookup i with
  | none => rwa [amend_of_none f hl] at h
  | some b =>
    rw [amend_of_some f hl] at h
    obtain ⟨d, hd, rfl⟩ := h
    rcases mem_filterMap_tend hd with hd | ⟨a, ha, had⟩
    · exact ⟨d, hd, rfl⟩
    · exact ⟨a, ha, (hf _ _ _ _ had).symm⟩

/-- An entry stands after an amendment unless it is the one that is amended and is not kept. -/
theorem holds_amend_iff (hs : Ticketed ticket t.entries t.cells.length)
    (hf : ∀ a b c d, (f a b).1 c = some d → ticket d = ticket c) {a : α}
    (ha : (id, a) ∈ t.entries) (i : Nat) : (t.amend ticket blank f i).Holds ticket id (ticket a) ↔
      ¬ (i = id ∧ (f a (t.cell blank (ticket a))).1 a = none) := by
  have hl : t.entries.lookup id = some a := lookup_of_mem hs.ids ha
  by_cases hi : i = id
  · subst hi
    have hcell : t.cell blank (ticket a) = t.cells.getD (ticket a) blank := rfl
    simp only [true_and, hcell]
    cases hkeep : (f a (t.cells.getD (ticket a) blank)).1 a with
    | none =>
      refine ⟨fun ⟨d, hd, _⟩ => ?_, fun h => absurd rfl h⟩
      rw [amend_of_some f hl] at hd
      obtain ⟨⟨j, e⟩, he, hed⟩ := List.mem_filterMap.mp hd
      unfold tend at hed
      split_ifs at hed with hj
      · obtain rfl : j = i := hj
        obtain rfl : e = a := Option.some.inj ((lookup_of_mem hs.ids he).symm.trans hl)
        rw [show (f e _).1 e = none from hkeep] at hed
        cases hed
      · exact absurd (Prod.mk.inj (Option.some.inj hed)).1 hj
    | some d =>
      refine iff_of_true ⟨d, ?_, hf _ _ _ _ hkeep⟩ (by simp)
      rw [amend_of_some f hl]
      exact List.mem_filterMap.mpr ⟨(i, a), ha, by rw [tend, if_pos rfl, hkeep]; rfl⟩
  · refine iff_of_true ⟨a, ?_, rfl⟩ fun h => hi h.1
    exact mem_of_lookup ((lookup_amend f (Ne.symm hi)).trans hl)

theorem cell_amend_self {i : Nat} {a : α} (hl : t.entries.lookup i = some a)
    (hlt : ticket a < t.cells.length) : (t.amend ticket blank f i).cell blank (ticket a) =
      (f a (t.cell blank (ticket a))).2 := by
  rw [amend_of_some f hl]
  simp [cell, List.getD_eq_getElem?_getD, hlt]

theorem cell_amend_of_free (hfree : ∀ id, ¬ t.Holds ticket id k) (i : Nat) :
    (t.amend ticket blank f i).cell blank k = t.cell blank k := by
  cases hl : t.entries.lookup i with
  | none => rw [amend_of_none f hl]
  | some a =>
    have hne : ticket a ≠ k := fun hk => hfree i ⟨a, mem_of_lookup hl, hk⟩
    rw [amend_of_some f hl]
    exact getD_set_of_ne _ _ _ hne _

/-! ### Any operation -/

variable {op : Op α β}

theorem length_apply (op : Op α β) : (t.apply ticket blank op).cells.length =
    t.cells.length + op.entered?.toList.length := by
  cases op with
  | enter i new b f => simp [apply, Op.entered?]
  | amend i f => exact length_amend f i
  | clear g => exact length_foldl_write g t.entries t
  | write m g => exact List.length_set

theorem Holds.of_apply (hk : op.Keeps ticket) (h : (t.apply ticket blank op).Holds ticket id k) :
    t.Holds ticket id k ∨ (op.entered? = some id ∧ k = t.cells.length) := by
  cases op with
  | enter i new b f =>
    obtain ⟨d, hd, rfl⟩ := h
    rcases List.mem_cons.mp hd with heq | hd
    · obtain ⟨rfl, rfl⟩ := Prod.mk.inj heq
      exact .inr ⟨rfl, hk.1 _⟩
    · exact .inl (Holds.of_amend f hk.2 ⟨d, hd, rfl⟩)
  | amend i f => exact .inl (Holds.of_amend f hk h)
  | clear g =>
    obtain ⟨d, hd, -⟩ := h
    cases hd
  | write m g => exact .inl h

/-- An entry that stands before an operation stands after it unless the operation takes it out. -/
theorem holds_apply_iff (hs : Ticketed ticket t.entries t.cells.length) (hk : op.Keeps ticket)
    {a : α} (ha : (id, a) ∈ t.entries) : (t.apply ticket blank op).Holds ticket id (ticket a) ↔
      ¬ op.Takes id a (t.cell blank (ticket a)) := by
  cases op with
  | enter i new b f =>
    refine Iff.trans ⟨?_, ?_⟩ (holds_amend_iff f hs hk.2 ha i)
    · rintro ⟨d, hd, hda⟩
      refine ⟨d, (List.mem_cons.mp hd).resolve_left fun heq => ?_, hda⟩
      have hlt := hs.bounded _ ha
      rw [(Prod.mk.inj heq).2, hk.1] at hda
      exact Nat.ne_of_gt hlt hda
    · exact fun ⟨d, hd, hda⟩ => ⟨d, List.mem_cons_of_mem _ hd, hda⟩
  | amend i f => exact holds_amend_iff f hs hk ha i
  | clear g =>
    refine iff_of_false ?_ (not_not_intro trivial)
    rintro ⟨d, hd, -⟩
    cases hd
  | write m g => exact iff_of_true ⟨a, ha, rfl⟩ not_false

theorem cell_append_of_lt (h : k < t.cells.length) (es : List (Nat × α)) (b : β) :
    cell blank ⟨es, t.cells ++ [b]⟩ k = t.cell blank k := by
  simp only [cell, List.getD_eq_getElem?_getD, List.getElem?_append_left h]

/-- The operation that takes an entry out leaves its cell closed. -/
theorem closed_of_apply (hs : Ticketed ticket t.entries t.cells.length) (hk : op.Keeps ticket)
    (hcl : op.Closes closed) (h : t.Holds ticket id k)
    (hn : ¬ (t.apply ticket blank op).Holds ticket id k) :
    closed ((t.apply ticket blank op).cell blank k) := by
  obtain ⟨a, ha, rfl⟩ := h
  have hlt : ticket a < t.cells.length := hs.bounded _ ha
  have hl : t.entries.lookup id = some a := lookup_of_mem hs.ids ha
  have htakes : op.Takes id a (t.cell blank (ticket a)) :=
    not_not.mp fun h => hn ((holds_apply_iff hs hk ha).mpr h)
  cases op with
  | enter i new b f =>
    obtain ⟨rfl, hout⟩ := htakes
    rw [apply, cell_append_of_lt (by simpa using hlt)]
    exact cell_amend_self f hl hlt ▸ hcl a _ hout
  | amend i f =>
    obtain ⟨rfl, hout⟩ := htakes
    exact cell_amend_self f hl hlt ▸ hcl a _ hout
  | clear g => exact closed_foldl_write g hcl hlt (.inr ⟨(id, a), ha, rfl⟩)
  | write m g => exact htakes.elim

/-- A closed cell without an entry stays as it is. -/
theorem cell_apply_of_free (hk : k < t.cells.length) (hfree : ∀ id, ¬ t.Holds ticket id k)
    (hc : closed (t.cell blank k)) (hcl : op.Closes closed) :
    (t.apply ticket blank op).cell blank k = t.cell blank k := by
  cases op with
  | enter i new b f =>
    rw [apply, cell_append_of_lt (by simpa using hk)]
    exact cell_amend_of_free f hfree i
  | amend i f => exact cell_amend_of_free f hfree i
  | clear g =>
    exact cell_foldl_write_of_ne g (fun e he hek => hfree e.1 ⟨e.2, he, hek⟩) t
  | write m g =>
    by_cases hm : k = m
    · subst hm
      exact (cell_write_self g hk).trans (hcl _ hc)
    · exact cell_write_of_ne g hm

theorem holds_apply_of_entered (hk : op.Keeps ticket) (h : op.entered? = some id) :
    (t.apply ticket blank op).Holds ticket id t.cells.length := by
  cases op with
  | enter i new b f =>
    obtain rfl : i = id := Option.some.inj h
    exact ⟨new t.cells.length, List.mem_cons_self, hk.1 _⟩
  | amend i f => cases h
  | clear g => cases h
  | write m g => cases h

theorem Holds.ticket_lt {n : Nat} (hs : Ticketed ticket t.entries n) (h : t.Holds ticket id k) :
    k < n := by
  obtain ⟨a, ha, rfl⟩ := h
  exact hs.bounded _ ha

theorem Holds.ticket_unique {m n : Nat} (hs : Ticketed ticket t.entries n)
    (h : t.Holds ticket id k) (h' : t.Holds ticket id m) : k = m := by
  obtain ⟨a, ha, rfl⟩ := h
  obtain ⟨b, hb, rfl⟩ := h'
  have hab : some a = some b := (lookup_of_mem hs.ids ha).symm.trans (lookup_of_mem hs.ids hb)
  rw [Option.some.inj hab]

theorem Holds.id_unique {i n : Nat} (hs : Ticketed ticket t.entries n)
    (h : t.Holds ticket i k) (h' : t.Holds ticket id k) : i = id := by
  obtain ⟨a, ha, rfl⟩ := h
  obtain ⟨b, hb, hba⟩ := h'
  exact hs.id_unique (lookup_of_mem hs.ids ha) (lookup_of_mem hs.ids hb) hba.symm

end Table

/-! ## Registries -/

/-- A kind of registry. Its operations are operations on a table, and `detaches s id k op` says that
`op` takes the receiver `k` off the entry under `id` when it meets `s`. -/
structure Registry (σ ω α β : Type) where
  empty : σ
  step : σ → ω → σ
  table : σ → Table α β
  ticket : α → Nat
  blank : β
  tabular : ω → Table.Op α β
  closed : β → Prop
  detaches : σ → Nat → Nat → ω → Prop
  table_empty : table empty = ⟨[], []⟩
  table_step : ∀ s op, table (step s op) = (table s).apply ticket blank (tabular op)
  keeps : ∀ op, (tabular op).Keeps ticket
  closes : ∀ op, (tabular op).Closes closed
  sound_step : ∀ s op, Ticketed ticket (table s).entries (table s).cells.length →
    Ticketed ticket (table (step s op)).entries (table (step s op)).cells.length
  takes_iff : ∀ s id a op, Ticketed ticket (table s).entries (table s).cells.length →
    (id, a) ∈ (table s).entries →
    ((tabular op).Takes id a ((table s).cell blank (ticket a)) ↔ detaches s id (ticket a) op)

namespace Registry

variable {σ ω α β : Type} (R : Registry σ ω α β)

def run (ops : List ω) : σ := ops.foldl R.step R.empty

/-- The operations of a run, each with the registry that it meets. -/
def trail (s : σ) : List ω → List (σ × ω)
  | [] => []
  | op :: ops => (s, op) :: trail (R.step s op) ops

def holder? (s : σ) (id : Nat) : Option Nat := ((R.table s).entries.lookup id).map R.ticket

def attached (s : σ) (k : Nat) : Bool := (R.table s).entries.any fun e => R.ticket e.2 == k

def received (s : σ) (k : Nat) : β := (R.table s).cell R.blank k

def registered (ops : List ω) : List Nat := ops.filterMap fun op => (R.tabular op).entered?

/-- Where in a run the receiver `k` loses its entry. -/
def endings (k : Nat) (ops : List ω) : List (σ × ω) :=
  (R.trail R.empty ops).filter fun e => R.attached e.1 k && !R.attached (R.step e.1 e.2) k

/-- The receiver `k` was handed out for `id` and not for any other id since. -/
structure Latest (ops : List ω) (id k : Nat) : Prop where
  registered : (R.registered ops)[k]? = some id
  last : ∀ m, (R.registered ops)[m]? = some id → m ≤ k

/-- Every receiver is either attached to the entry under its id or detached for ever. -/
structure Conserved (ops : List ω) : Prop where
  /-- Receivers are handed out by registrations alone. -/
  handedOut : (R.table (R.run ops)).cells.length = (R.registered ops).length
  attached_or_detached : ∀ k id, (R.registered ops)[k]? = some id →
    (R.attached (R.run ops) k = true ∧ R.holder? (R.run ops) id = some k ∧ R.Latest ops id k ∧
      R.endings k ops = []) ∨
    (R.attached (R.run ops) k = false ∧
      ∃ e, R.endings k ops = [e] ∧ R.detaches e.1 id k e.2)
  /-- An entry is only ever that of the receiver last handed out for its id. -/
  holder : ∀ id k, R.holder? (R.run ops) id = some k → R.Latest ops id k
  /-- A receiver that is detached stays so, and gets nothing. -/
  forever : ∀ more k, k < (R.registered ops).length → R.attached (R.run ops) k = false →
    R.attached (R.run (ops ++ more)) k = false ∧
      R.received (R.run (ops ++ more)) k = R.received (R.run ops) k
  /-- What would detach a receiver next. -/
  next : ∀ op id k, R.holder? (R.run ops) id = some k →
    (R.attached (R.step (R.run ops) op) k = false ↔ R.detaches (R.run ops) id k op)

variable {R} {s : σ} {id k : Nat} {op : ω} {ops : List ω}

/-! ### One operation -/

def Sound (R : Registry σ ω α β) (s : σ) : Prop :=
  Ticketed R.ticket (R.table s).entries (R.table s).cells.length

theorem attached_iff : R.attached s k = true ↔ ∃ id, (R.table s).Holds R.ticket id k := by
  simp only [attached, List.any_eq_true, beq_iff_eq, Prod.exists, Table.Holds]

theorem attached_eq_false : R.attached s k = false ↔ ∀ id, ¬ (R.table s).Holds R.ticket id k := by
  rw [← Bool.not_eq_true, attached_iff, not_exists]

theorem holder?_eq_some (hs : R.Sound s) :
    R.holder? s id = some k ↔ (R.table s).Holds R.ticket id k := by
  simp only [holder?, Option.map_eq_some_iff, Table.Holds]
  exact exists_congr fun a => and_congr_left' ⟨mem_of_lookup, lookup_of_mem hs.ids⟩

theorem length_step (R : Registry σ ω α β) (s : σ) (op : ω) : (R.table (R.step s op)).cells.length =
    (R.table s).cells.length + (R.tabular op).entered?.toList.length := by
  rw [R.table_step, Table.length_apply]

/-- A receiver that is detached and has its cell closed stays so, and gets nothing. -/
theorem detached_step (hk : k < (R.table s).cells.length) (hd : R.attached s k = false)
    (hc : R.closed (R.received s k)) (op : ω) :
    R.attached (R.step s op) k = false ∧ R.received (R.step s op) k = R.received s k := by
  rw [attached_eq_false] at hd ⊢
  rw [received, R.table_step]
  refine ⟨fun id h => ?_, Table.cell_apply_of_free hk hd hc (R.closes op)⟩
  rcases h.of_apply (R.keeps op) with h | ⟨-, rfl⟩
  · exact hd id h
  · omega

theorem closed_step (hs : R.Sound s) (h : R.attached s k = true)
    (hn : R.attached (R.step s op) k = false) : R.closed (R.received (R.step s op) k) := by
  obtain ⟨id, h⟩ := attached_iff.mp h
  rw [received, R.table_step]
  refine Table.closed_of_apply hs (R.keeps op) (R.closes op) h ?_
  rw [← R.table_step]
  exact attached_eq_false.mp hn id

theorem attached_step_iff (hs : R.Sound s) (h : (R.table s).Holds R.ticket id k) (op : ω) :
    R.attached (R.step s op) k = false ↔ R.detaches s id k op := by
  have hstands : R.attached (R.step s op) k = true ↔
      (R.table (R.step s op)).Holds R.ticket id k := by
    refine attached_iff.trans ⟨fun ⟨i, hi⟩ => ?_, fun hid => ⟨id, hid⟩⟩
    have hout := hi
    rw [R.table_step] at hout
    rcases hout.of_apply (R.keeps op) with hold | ⟨-, rfl⟩
    · exact hold.id_unique hs h ▸ hi
    · exact absurd (h.ticket_lt hs) (lt_irrefl _)
  obtain ⟨a, ha, rfl⟩ := h
  rw [← Bool.not_eq_true, hstands, R.table_step, Table.holds_apply_iff hs (R.keeps op) ha,
    not_not, R.takes_iff s id a op hs ha]

theorem attached_step_of_entered (h : (R.tabular op).entered? = some id) :
    R.attached (R.step s op) (R.table s).cells.length = true := by
  rw [attached_iff, R.table_step]
  exact ⟨id, Table.holds_apply_of_entered (R.keeps op) h⟩

/-! ### A run of operations -/

theorem run_append_singleton : R.run (ops ++ [op]) = R.step (R.run ops) op :=
  List.foldl_concat _ _ _ _

theorem trail_append_singleton (s : σ) :
    R.trail s (ops ++ [op]) = R.trail s ops ++ [(ops.foldl R.step s, op)] := by
  induction ops generalizing s with
  | nil => rfl
  | cons o ops ih => rw [List.cons_append, trail, ih, trail, List.cons_append, List.foldl_cons]

theorem endings_of_stay
    (h : R.attached (R.run ops) k = false ∨ R.attached (R.step (R.run ops) op) k = true) :
    R.endings k (ops ++ [op]) = R.endings k ops := by
  have hf : (R.attached (R.run ops) k && !R.attached (R.step (R.run ops) op) k) = false := by
    rcases h with h | h <;> simp [h]
  rw [endings, trail_append_singleton, List.filter_append, List.filter_cons_of_neg, List.filter_nil,
    List.append_nil, endings]
  exact ne_true_of_eq_false hf

theorem endings_of_detached (h : R.attached (R.run ops) k = true)
    (hn : R.attached (R.step (R.run ops) op) k = false) :
    R.endings k (ops ++ [op]) = R.endings k ops ++ [(R.run ops, op)] := by
  have hf : (R.attached (R.run ops) k && !R.attached (R.step (R.run ops) op) k) = true := by
    simp [h, hn]
  rw [endings, trail_append_singleton, List.filter_append]
  exact congrArg _ (List.filter_cons_of_pos (p := fun e : σ × ω =>
    R.attached e.1 k && !R.attached (R.step e.1 e.2) k) hf)

theorem registered_append_singleton : R.registered (ops ++ [op]) =
    R.registered ops ++ (R.tabular op).entered?.toList := by
  rw [registered, List.filterMap_append]
  cases h : (R.tabular op).entered? <;> simp [registered, h]

theorem sound_run (R : Registry σ ω α β) (ops : List ω) : R.Sound (R.run ops) := by
  induction ops using List.reverseRecOn with
  | nil =>
    rw [Sound, run, List.foldl_nil, R.table_empty]
    exact Ticketed.nil
  | append_singleton ops op ih =>
    rw [run_append_singleton]
    exact R.sound_step _ _ ih

theorem length_run (R : Registry σ ω α β) (ops : List ω) :
    (R.table (R.run ops)).cells.length = (R.registered ops).length := by
  induction ops using List.reverseRecOn with
  | nil => rw [run, List.foldl_nil, R.table_empty]; rfl
  | append_singleton ops op ih =>
    rw [run_append_singleton, length_step, registered_append_singleton, List.length_append, ih]

theorem lt_of_attached (h : R.attached (R.run ops) k = true) : k < (R.registered ops).length := by
  obtain ⟨id, h⟩ := attached_iff.mp h
  rw [← length_run]
  exact h.ticket_lt (R.sound_run ops)

theorem endings_of_length_le (h : (R.registered ops).length ≤ k) : R.endings k ops = [] := by
  induction ops using List.reverseRecOn with
  | nil => rfl
  | append_singleton ops op ih =>
    rw [registered_append_singleton, List.length_append] at h
    have hd : R.attached (R.run ops) k = false :=
      eq_false_of_ne_true fun ha => by
        have hlt := lt_of_attached ha
        omega
    rw [endings_of_stay (.inl hd)]
    exact ih (by omega)

theorem Latest.append (h : R.Latest ops id k) (hop : (R.tabular op).entered? ≠ some id) :
    R.Latest (ops ++ [op]) id k := by
  refine ⟨?_, fun m hm => ?_⟩ <;> rw [registered_append_singleton] at *
  · rw [List.getElem?_append_left (List.getElem?_eq_some_iff.mp h.registered).1, h.registered]
  · rw [List.getElem?_append] at hm
    split_ifs at hm with hlt
    · exact h.last m hm
    · exact absurd (Option.mem_toList.mp (List.mem_of_getElem? hm)) hop

theorem latest_of_entered (h : (R.tabular op).entered? = some id) :
    R.Latest (ops ++ [op]) id (R.registered ops).length := by
  have hreg : R.registered (ops ++ [op]) = R.registered ops ++ [id] := by
    rw [registered_append_singleton, h]
    rfl
  refine ⟨by rw [hreg, List.getElem?_concat_length], fun m hm => ?_⟩
  have hlt := (List.getElem?_eq_some_iff.mp hm).1
  rw [hreg, List.length_append, List.length_singleton] at hlt
  omega

theorem latest_of_holds (h : (R.table (R.run ops)).Holds R.ticket id k) : R.Latest ops id k := by
  induction ops using List.reverseRecOn generalizing id k with
  | nil =>
    obtain ⟨a, ha, -⟩ := h
    rw [run, List.foldl_nil, R.table_empty] at ha
    cases ha
  | append_singleton ops op ih =>
    have hs := R.sound_run (ops ++ [op])
    rw [run_append_singleton] at h hs
    have hout := h
    rw [R.table_step] at hout
    rcases hout.of_apply (R.keeps op) with hold | ⟨hnew, rfl⟩
    · refine (ih hold).append fun hop => ?_
      -- had the id been entered again, the next ticket would stand under it too
      have hnew : ((R.table (R.run ops)).apply R.ticket R.blank (R.tabular op)).Holds R.ticket id
          (R.table (R.run ops)).cells.length := Table.holds_apply_of_entered (R.keeps op) hop
      rw [← R.table_step] at hnew
      have hk := h.ticket_unique hs hnew
      have hlt := hold.ticket_lt (R.sound_run ops)
      omega
    · rw [length_run]
      exact latest_of_entered hnew

/-- A receiver is attached, or one operation has detached it. -/
theorem attached_or_detached (hk : (R.registered ops)[k]? = some id) :
    (R.attached (R.run ops) k = true ∧ R.endings k ops = []) ∨
    (R.attached (R.run ops) k = false ∧ R.closed (R.received (R.run ops) k) ∧
      ∃ e, R.endings k ops = [e] ∧ R.detaches e.1 id k e.2) := by
  induction ops using List.reverseRecOn with
  | nil => cases hk
  | append_singleton ops op ih =>
    rw [run_append_singleton]
    -- the receiver was handed out before, or is handed out by this operation
    by_cases hlt : k < (R.registered ops).length
    · rw [registered_append_singleton, List.getElem?_append_left hlt] at hk
      rcases ih hk with ⟨ha, hnone⟩ | ⟨hd, hc, e, he, hby⟩
      · cases hafter : R.attached (R.step (R.run ops) op) k with
        | true => exact .inl ⟨rfl, (endings_of_stay (.inr hafter)).trans hnone⟩
        | false =>
          refine .inr ⟨rfl, closed_step (R.sound_run ops) ha hafter, (R.run ops, op), ?_, ?_⟩
          · rw [endings_of_detached ha hafter, hnone]
            rfl
          · obtain ⟨i, hi⟩ := attached_iff.mp ha
            obtain rfl : i = id :=
              Option.some.inj ((latest_of_holds hi).registered.symm.trans hk)
            exact (attached_step_iff (R.sound_run ops) hi op).mp hafter
      · rw [← length_run] at hlt
        obtain ⟨hd', hc'⟩ := detached_step hlt hd hc op
        exact .inr ⟨hd', hc'.symm ▸ hc, e, (endings_of_stay (.inl hd)).trans he, hby⟩
    · have hmem : id ∈ (R.tabular op).entered?.toList ∧ k = (R.registered ops).length := by
        rw [registered_append_singleton, List.getElem?_append_right (by omega)] at hk
        have hone : (R.tabular op).entered?.toList.length ≤ 1 := Option.length_toList_le
        have hin := (List.getElem?_eq_some_iff.mp hk).1
        exact ⟨List.mem_of_getElem? hk, by omega⟩
      obtain ⟨hnew, rfl⟩ := hmem
      have ha := attached_step_of_entered (s := R.run ops) (Option.mem_toList.mp hnew)
      rw [length_run] at ha
      exact .inl ⟨ha, (endings_of_stay (.inr ha)).trans (endings_of_length_le le_rfl)⟩

theorem detached_run {more : List ω} (hk : k < (R.registered ops).length)
    (hd : R.attached (R.run ops) k = false) :
    R.attached (R.run (ops ++ more)) k = false ∧
      R.received (R.run (ops ++ more)) k = R.received (R.run ops) k := by
  induction more using List.reverseRecOn with
  | nil =>
    rw [List.append_nil]
    exact ⟨hd, rfl⟩
  | append_singleton more op ih =>
    have hc : R.closed (R.received (R.run ops) k) := by
      rcases attached_or_detached (List.getElem?_eq_getElem hk) with ⟨ha, -⟩ | ⟨-, hc, -⟩
      · rw [hd] at ha
        cases ha
      · exact hc
    have hlt : k < (R.table (R.run (ops ++ more))).cells.length := by
      rw [length_run, registered, List.filterMap_append, List.length_append]
      exact Nat.lt_of_lt_of_le hk (Nat.le_add_right _ _)
    rw [← List.append_assoc, run_append_singleton]
    obtain ⟨hd', hc'⟩ := detached_step hlt ih.1 (ih.2.symm ▸ hc) op
    exact ⟨hd', hc'.trans ih.2⟩

theorem size_eq (hs : R.Sound s) :
    (R.table s).entries.length = {id | (R.holder? s id).isSome}.ncard := by
  have hset : {id | (R.holder? s id).isSome} = ↑((R.table s).entries.map Prod.fst).toFinset := by
    ext id
    simp only [Set.mem_ofPred_eq, List.coe_toFinset, List.mem_map, Option.isSome_iff_exists,
      holder?_eq_some hs, Table.Holds]
    constructor
    · rintro ⟨k, a, ha, -⟩
      exact ⟨(id, a), ha, rfl⟩
    · rintro ⟨⟨i, a⟩, ha, rfl⟩
      exact ⟨_, a, ha, rfl⟩
  rw [hset, Set.ncard_coe_finset, List.toFinset_card_of_nodup hs.ids, List.length_map]

theorem conserved (R : Registry σ ω α β) (ops : List ω) : R.Conserved ops where
  handedOut := R.length_run ops
  attached_or_detached k id hk := by
    rcases attached_or_detached hk with ⟨ha, hnone⟩ | ⟨hd, -, hby⟩
    · obtain ⟨i, hi⟩ := attached_iff.mp ha
      have hlast := latest_of_holds hi
      obtain rfl : i = id := Option.some.inj (hlast.registered.symm.trans hk)
      exact .inl ⟨ha, (holder?_eq_some (R.sound_run ops)).mpr hi, hlast, hnone⟩
    · exact .inr ⟨hd, hby⟩
  holder id k h := latest_of_holds ((holder?_eq_some (R.sound_run ops)).mp h)
  forever more k hk hd := detached_run hk hd
  next op id k h :=
    attached_step_iff (R.sound_run ops) ((holder?_eq_some (R.sound_run ops)).mp h) op

end Registry

/-! ## The two registries -/

/-- The receiver of a poke is detached by what takes the entry under its id out, by a registration
in its place, and by a failure of all pokes. -/
def Pokes.Op.Detaches (id : Nat) : Pokes.Op → Prop
  | .register i | .resolve i _ | .remove i => i = id
  | .failAll _ => True
  | .abandon _ => False

/-- A diff detaches a receiver only if that has been abandoned, and a refusal only one that has been
offered no diff. -/
def Subscriptions.Detaches (s : Subscriptions) (id k : Nat) : Subscriptions.Op → Prop
  | .register i | .quit i | .remove i => i = id
  | .deliver i _ => i = id ∧ (s.mailbox k).abandoned = true
  | .reject i _ => i = id ∧ s.entry? id = some { ticket := k }
  | .terminateAll _ => True
  | .abandon _ => False

theorem Pokes.Op.closes_tabular (op : Pokes.Op) : op.tabular.Closes (· ≠ Slot.waiting) := by
  have hput {x : Slot} (hx : x ≠ .waiting) (b : Slot) : put x b ≠ .waiting := by
    cases b <;> simp [put, hx]
  cases op with
  | register id => exact fun _ b _ => hput (by simp) b
  | resolve id a => exact fun _ b _ => hput (by simp) b
  | remove id => exact fun _ b _ => hput (by simp) b
  | failAll fault => exact hput (by simp)
  | abandon t =>
    intro b hb
    cases b <;> first | rfl | exact absurd rfl hb

theorem Subscriptions.Op.closes_tabular (op : Subscriptions.Op) :
    op.tabular.Closes (Mailbox.attached · = false) := by
  cases op with
  | deliver id json =>
    intro e m h
    unfold delivery at h ⊢
    split_ifs at h ⊢
    rfl
  | reject id message =>
    intro e m h
    unfold refusal at h ⊢
    split_ifs at h ⊢
    rfl
  | abandon t =>
    intro m hm
    rw [Mailbox.drop, if_pos (by simp [hm])]
  | terminateAll reason => exact fun _ => rfl
  | _ => exact fun _ _ _ => rfl

def Pokes.registry : Registry Pokes Pokes.Op Nat Slot where
  empty := {}
  step := apply
  table := table
  ticket t := t
  blank := .discarded
  tabular := Op.tabular
  closed x := x ≠ .waiting
  detaches _ id _ op := op.Detaches id
  table_empty := rfl
  table_step := table_apply
  keeps := Op.keeps_tabular
  closes := Op.closes_tabular
  sound_step _ op hs := Sound.apply hs op
  takes_iff _ id _ op _ _ := by
    cases op <;> simp [Op.tabular, Op.Detaches, Table.Op.Takes, takeOut]

def Subscriptions.registry : Registry Subscriptions Subscriptions.Op Entry Mailbox where
  empty := {}
  step := apply
  table := table
  ticket := Entry.ticket
  blank := { attached := false }
  tabular := Op.tabular
  closed m := m.attached = false
  detaches := Detaches
  table_empty := rfl
  table_step _ op := table_apply op
  keeps := Op.keeps_tabular
  closes := Op.closes_tabular
  sound_step _ op hs := Sound.apply hs op
  takes_iff s id a op hs ha := by
    have he : s.entry? id = some a := lookup_of_mem hs.ids ha
    have hm : s.table.cell { attached := false } a.ticket = s.mailbox a.ticket := rfl
    cases op with
    | deliver i json =>
      refine and_congr_right fun _ => ?_
      rw [hm, delivery]
      split_ifs with hab <;> simp [hab]
    | reject i message =>
      refine and_congr_right fun _ => ?_
      rw [he, refusal]
      obtain ⟨ticket, diffs⟩ := a
      split_ifs with hd <;> simp_all [ending]
    | _ => simp [Op.tabular, Detaches, Table.Op.Takes, removal, ending]

namespace Pokes

theorem unsettled_run (ops : List Op) : (registry.run ops).Unsettled := by
  induction ops using List.reverseRecOn with
  | nil => exact fun i u hu => by cases hu
  | append_singleton ops op ih =>
    rw [Registry.run_append_singleton]
    exact ih.apply (registry.sound_run ops) op

theorem outcome?_of_attached {ops : List Op} {k : Nat}
    (h : registry.attached (registry.run ops) k = true) :
    ((registry.run ops).slot k).outcome? = none := by
  obtain ⟨id, a, ha, rfl⟩ := Registry.attached_iff.mp h
  exact unsettled_run ops id a (lookup_of_mem (registry.sound_run ops).ids ha)

theorem outcome?_run_append {ops : List Op} {k : Nat} {a : Answer} (more : List Op)
    (hk : k < (registry.registered ops).length)
    (h : ((registry.run ops).slot k).outcome? = some a) :
    ((registry.run (ops ++ more)).slot k).outcome? = some a := by
  have hd : registry.attached (registry.run ops) k = false := by
    refine eq_false_of_ne_true fun ha => ?_
    rw [outcome?_of_attached ha] at h
    cases h
  have hsame : (registry.run (ops ++ more)).slot k = (registry.run ops).slot k :=
    (Registry.detached_run hk hd).2
  rw [hsame, h]

theorem size_run (ops : List Op) :
    (registry.run ops).size = {id | ((registry.run ops).ticket? id).isSome}.ncard := by
  have hsize := Registry.size_eq (registry.sound_run ops)
  simp only [Registry.holder?, Option.isSome_map] at hsize
  exact hsize

end Pokes

theorem Subscriptions.size_run (ops : List Op) :
    (registry.run ops).size = {id | ( entry? (registry.run ops) id).isSome}.ncard := by
  have hsize := Registry.size_eq (registry.sound_run ops)
  simp only [Registry.holder?, Option.isSome_map] at hsize
  exact hsize

/-- After any operations on the waiting pokes, or on the open subscriptions, every receiver that has
been handed out is attached to the entry under its id, or was detached by one operation and gets
nothing after that. The receiver of a poke gets no outcome before it is detached, and at most one in
all. The size is the number of ids with an entry, and what ends them all at once returns it. -/
theorem receivers_conserved :
    (∀ ops : List Pokes.Op,
      let p := Pokes.registry.run ops
      Pokes.registry.Conserved ops ∧
      (∀ id, (p.register id).1 = (Pokes.registry.registered ops).length) ∧
      (∀ k, Pokes.registry.attached p k = true → (p.slot k).outcome? = none) ∧
      (∀ k a, k < (Pokes.registry.registered ops).length → (p.slot k).outcome? = some a →
        ∀ more, ((Pokes.registry.run (ops ++ more)).slot k).outcome? = some a) ∧
      p.size = {id | (p.ticket? id).isSome}.ncard ∧
      ∀ fault, (p.failAll fault).1 = p.size ∧ (p.failAll fault).2.size = 0) ∧
    ∀ ops : List Subscriptions.Op,
      let s := Subscriptions.registry.run ops
      Subscriptions.registry.Conserved ops ∧
      (∀ id, (s.register id).1 = (Subscriptions.registry.registered ops).length) ∧
      s.size = {id | ( s.entry? id).isSome}.ncard ∧
      ∀ reason, (s.terminateAll reason).1 = s.size ∧ (s.terminateAll reason).2.size = 0 := by
  constructor
  · intro ops p
    have hreg (id : Nat) : (p.register id).1 = (Pokes.registry.registered ops).length :=
      (p.register_fst id).trans (Pokes.registry.length_run ops)
    exact ⟨Pokes.registry.conserved ops, hreg, fun _ => Pokes.outcome?_of_attached,
      fun _ _ hk h more => Pokes.outcome?_run_append more hk h, Pokes.size_run ops,
      fun _ => ⟨rfl, rfl⟩⟩
  · intro ops s
    have hreg (id : Nat) : (s.register id).1 = (Subscriptions.registry.registered ops).length :=
      (s.register_fst id).trans (Subscriptions.registry.length_run ops)
    exact ⟨Subscriptions.registry.conserved ops, hreg, Subscriptions.size_run ops,
      fun _ => ⟨rfl, rfl⟩⟩

/-- A diff for a receiver that has gone takes the entry out. -/
example (json : Json) : let s := Subscriptions.registry.run [.register 4, .abandon 0]
    s.size = 1 ∧ (s.deliver 4 json).1 = .terminated ∧ (s.deliver 4 json).2.size = 0 :=
  ⟨rfl, rfl, rfl⟩

end ShipBridge.Session
