import Mathlib.Data.List.Nodup
import Mathlib.Tactic.SplitIfs

/-!
# Tables of entries with tickets

The waiting pokes and the open subscriptions are kept in the same way: as a list of entries under
ids, where each entry holds a ticket and the tickets are numbered from zero. A table is in order
when no two entries share an id or a ticket and every ticket has been handed out.

With each ticket goes a cell. An operation on a table enters an id, amends the entry under an id
together with the cell of its ticket, writes to the cells of all entries and takes the entries out,
or writes to one cell. What it does is told from what it finds in these places. So amendments of
different entries commute, and an operation does beside an entry what it would have done without
that entry.
-/

namespace ShipBridge.Session

variable {α : Type} {es : List (Nat × α)} {i j : Nat} {a b : α}

/-- Erasing a key from a list of entries takes away what is found under it and nothing else. -/
theorem lookup_filter_ne {κ : Type} [BEq κ] [LawfulBEq κ] [DecidableEq κ] (es : List (κ × α))
    (i j : κ) :
    (es.filter fun (k, _) => k != i).lookup j = if j = i then none else es.lookup j := by
  induction es with
  | nil => simp
  | cons e es ih =>
    obtain ⟨k, a⟩ := e
    by_cases hk : k = i
    · have hf : ((k, a) :: es).filter (fun (k, _) => k != i) = es.filter fun (k, _) => k != i := by
        simp [hk]
      rw [hf, ih, List.lookup_cons]
      by_cases hj : j = i
      · simp [hj]
      · have hjk : (j == k) = false := by simpa [hk] using hj
        simp [hj, hjk]
    · have hf : ((k, a) :: es).filter (fun (k, _) => k != i) =
          (k, a) :: es.filter fun (k, _) => k != i := by simp [hk]
      rw [hf, List.lookup_cons, List.lookup_cons, ih]
      by_cases hj : j = k
      · simp [hj, hk]
      · have hjk : (j == k) = false := by simpa using hj
        simp [hjk]

theorem mem_of_lookup (h : es.lookup i = some a) : (i, a) ∈ es := by
  obtain ⟨l, r, rfl, -⟩ := List.lookup_eq_some_iff.mp h
  simp

theorem notMem_keys_of_lookup (h : es.lookup i = none) : i ∉ es.map Prod.fst := by
  intro hm
  obtain ⟨e, he, rfl⟩ := List.mem_map.mp hm
  have hne := List.lookup_eq_none_iff.mp h e he
  simp at hne

theorem filter_ne_of_lookup (h : es.lookup i = none) : (es.filter fun (k, _) => k != i) = es := by
  refine List.filter_eq_self.mpr fun e he => ?_
  have hi : e.1 ≠ i := fun hi => notMem_keys_of_lookup h (hi ▸ List.mem_map_of_mem he)
  simpa using hi

theorem lookup_of_mem (hd : (es.map Prod.fst).Nodup) (h : (i, a) ∈ es) : es.lookup i = some a := by
  cases hl : es.lookup i with
  | none => exact absurd (List.mem_map_of_mem h) (notMem_keys_of_lookup hl)
  | some b =>
    have heq : (i, b) = (i, a) := List.inj_on_of_nodup_map hd (mem_of_lookup hl) h rfl
    rw [(Prod.mk.inj heq).2]

theorem lookup_cons_of_ne (a : α) (h : j ≠ i) : ((i, a) :: es).lookup j = es.lookup j := by
  have hb : (j == i) = false := by simpa using h
  rw [List.lookup_cons, hb]

structure Ticketed (ticket : α → Nat) (es : List (Nat × α)) (bound : Nat) : Prop where
  ids : (es.map Prod.fst).Nodup
  tickets : (es.map fun e => ticket e.2).Nodup
  bounded : ∀ e ∈ es, ticket e.2 < bound

namespace Ticketed

variable {ticket : α → Nat} {bound : Nat}

theorem nil : Ticketed ticket [] bound := ⟨List.nodup_nil, List.nodup_nil, by simp⟩

theorem filter (h : Ticketed ticket es bound) (f : Nat × α → Bool) :
    Ticketed ticket (es.filter f) bound where
  ids := (List.filter_sublist.map _).nodup h.ids
  tickets := (List.filter_sublist.map _).nodup h.tickets
  bounded e he := h.bounded e (List.mem_of_mem_filter he)

theorem cons (h : Ticketed ticket es bound) (hi : es.lookup i = none) (ha : ticket a = bound) :
    Ticketed ticket ((i, a) :: es) (bound + 1) := by
  refine ⟨List.nodup_cons.mpr ⟨notMem_keys_of_lookup hi, h.ids⟩,
    List.nodup_cons.mpr ⟨?_, h.tickets⟩, ?_⟩
  · intro hm
    obtain ⟨e, he, hl⟩ := List.mem_map.mp hm
    have hlt := h.bounded e he
    change ticket e.2 = ticket a at hl
    omega
  · intro e he
    rcases List.mem_cons.mp he with rfl | he
    · change ticket a < bound + 1
      omega
    · have hlt := h.bounded e he
      omega

theorem id_unique (h : Ticketed ticket es bound) (hi : es.lookup i = some a)
    (hj : es.lookup j = some b) (hab : ticket a = ticket b) : i = j :=
  congrArg Prod.fst (List.inj_on_of_nodup_map h.tickets (mem_of_lookup hi) (mem_of_lookup hj) hab)

theorem ticket_lt (h : Ticketed ticket es bound) (hi : es.lookup i = some a) : ticket a < bound :=
  h.bounded _ (mem_of_lookup hi)

end Ticketed

/-! ## Tending an entry -/

/-- Let the entry under `id` be what `keep` makes of it. -/
def tend (id : Nat) (keep : α → Option α) (e : Nat × α) : Option (Nat × α) :=
  if e.1 = id then (keep e.2).map (e.1, ·) else some e

theorem filterMap_tend_comm (hij : i ≠ j) (k l : α → Option α) (es : List (Nat × α)) :
    (es.filterMap (tend i k)).filterMap (tend j l) =
      (es.filterMap (tend j l)).filterMap (tend i k) := by
  rw [List.filterMap_filterMap, List.filterMap_filterMap]
  refine List.filterMap_congr fun e _ => ?_
  obtain ⟨m, a⟩ := e
  by_cases hi : m = i
  · have hj : m ≠ j := hi ▸ hij
    cases hk : k a <;> simp [tend, hi, hij, hk]
  · by_cases hj : m = j
    · cases hl : l a <;> simp [tend, hj, hij.symm, hl]
    · simp [tend, hi, hj]

theorem lookup_filterMap_tend (hij : j ≠ i) (k : α → Option α) (es : List (Nat × α)) :
    (es.filterMap (tend i k)).lookup j = es.lookup j := by
  induction es with
  | nil => rfl
  | cons e es ih =>
    obtain ⟨m, a⟩ := e
    by_cases hi : m = i
    · have hb : (j == m) = false := by simpa [hi] using hij
      rw [List.filterMap_cons, List.lookup_cons, hb]
      cases hk : k a with
      | none => simpa [tend, hi, hk] using ih
      | some b => simpa [tend, hi, hk, List.lookup_cons, hi ▸ hb] using ih
    · have ht : tend i k (m, a) = some (m, a) := if_neg hi
      rw [List.filterMap_cons, ht, List.lookup_cons, List.lookup_cons, ih]

theorem filterMap_tend_none (id : Nat) (es : List (Nat × α)) :
    es.filterMap (tend id fun _ => none) = es.filter fun (i, _) => i != id := by
  rw [← List.filterMap_eq_filter]
  refine List.filterMap_congr fun e _ => ?_
  obtain ⟨m, a⟩ := e
  by_cases hm : m = id <;> simp [tend, hm, Option.guard]

theorem filter_filterMap_tend (id : Nat) (keep : α → Option α) (es : List (Nat × α)) :
    (es.filterMap (tend id keep)).filter (fun (i, _) => i != id) =
      es.filter fun (i, _) => i != id := by
  rw [← filterMap_tend_none, ← filterMap_tend_none, List.filterMap_filterMap]
  refine List.filterMap_congr fun e _ => ?_
  obtain ⟨m, a⟩ := e
  by_cases hm : m = id
  · cases hk : keep a <;> simp [tend, hm, hk]
  · simp [tend, hm]

theorem filter_filterMap_tend_of_ne (hij : i ≠ j) (keep : α → Option α) (es : List (Nat × α)) :
    (es.filterMap (tend j keep)).filter (fun (m, _) => m != i) =
      (es.filter fun (m, _) => m != i).filterMap (tend j keep) := by
  rw [← filterMap_tend_none, filterMap_tend_comm hij.symm, filterMap_tend_none]

theorem mem_filterMap_tend {id : Nat} {keep : α → Option α} {es : List (Nat × α)} {e : Nat × α}
    (h : e ∈ es.filterMap (tend id keep)) :
    e ∈ es ∨ ∃ a, (e.1, a) ∈ es ∧ keep a = some e.2 := by
  obtain ⟨f, hf, he⟩ := List.mem_filterMap.mp h
  unfold tend at he
  split_ifs at he with hid
  · obtain ⟨a, ha, rfl⟩ := Option.map_eq_some_iff.mp he
    exact .inr ⟨f.2, hf, ha⟩
  · exact .inl (Option.some.inj he ▸ hf)

theorem filterMap_tend_some (id : Nat) (es : List (Nat × α)) :
    es.filterMap (tend id some) = es := by
  refine (List.filterMap_congr fun e _ => ?_).trans List.filterMap_some
  unfold tend
  split_ifs <;> rfl

section Cells

variable {β : Type} (l : List β) (k : Nat) (d : β)

theorem set_getD : l.set k (l.getD k d) = l := by
  rw [List.getD_eq_getElem?_getD]
  by_cases hk : k < l.length
  · simp [hk]
  · exact List.set_eq_of_length_le (by omega)

theorem set_set_getD (b : β) (h : β → β) :
    (l.set k b).set k (h ((l.set k b).getD k d)) = l.set k (h b) := by
  by_cases hk : k < l.length
  · simp [List.getD_eq_getElem?_getD, hk]
  · rw [List.set_eq_of_length_le (by simpa using hk), List.set_eq_of_length_le (by omega),
      List.set_eq_of_length_le (by omega)]

theorem getD_set_of_ne {m : Nat} (h : m ≠ k) (b : β) : (l.set m b).getD k d = l.getD k d := by
  simp only [List.getD_eq_getElem?_getD, List.getElem?_set_ne h]

end Cells

/-! ## Operations -/

/-- The entries of a table and the cells of the tickets that it has handed out. -/
structure Table (α β : Type) where
  entries : List (Nat × α)
  cells : List β

namespace Table

section

variable {β : Type} (ticket : α → Nat) (blank : β) (t : Table α β)

def amend (f : α → β → (α → Option α) × β) (id : Nat) : Table α β :=
  (t.entries.lookup id).elim t fun a =>
    let (keep, b) := f a (t.cells.getD (ticket a) blank)
    ⟨t.entries.filterMap (tend id keep), t.cells.set (ticket a) b⟩

def write (g : β → β) (k : Nat) : Table α β :=
  { t with cells := t.cells.set k (g (t.cells.getD k blank)) }

inductive Op (α β : Type) where
  | enter (id : Nat) (new : Nat → α) (b : β) (f : α → β → (α → Option α) × β)
  | amend (id : Nat) (f : α → β → (α → Option α) × β)
  | clear (g : β → β)
  | write (k : Nat) (g : β → β)

/-- An entry under the id that is entered is amended first. -/
def apply : Op α β → Table α β
  | .enter id new b f =>
    let u := t.amend ticket blank f id
    ⟨(id, new t.cells.length) :: u.entries, u.cells ++ [b]⟩
  | .amend id f => t.amend ticket blank f id
  | .clear g =>
    { t.entries.foldl (fun u e => u.write blank g (ticket e.2)) t with entries := [] }
  | .write k g => t.write blank g k

end

variable {β : Type} {ticket : α → Nat} {blank : β} {t u : Table α β} {k : Nat}
  (f g : α → β → (α → Option α) × β)

@[simp] theorem length_amend (id : Nat) :
    (t.amend ticket blank f id).cells.length = t.cells.length := by
  unfold amend
  cases t.entries.lookup id with
  | none => rfl
  | some a => exact List.length_set

theorem amend_of_none (h : t.entries.lookup i = none) : t.amend ticket blank f i = t := by
  rw [amend, h]
  rfl

theorem amend_of_some {a : α} (h : t.entries.lookup i = some a) : t.amend ticket blank f i =
    ⟨t.entries.filterMap (tend i (f a (t.cells.getD (ticket a) blank)).1),
      t.cells.set (ticket a) (f a (t.cells.getD (ticket a) blank)).2⟩ := by
  rw [amend, h]
  rfl

/-- An entry that has just been made is taken out again, and its cell is written to. -/
theorem amend_cons_self {es : List (Nat × α)} {cells : List β} (hi : es.lookup i = none) {a : α}
    (ha : ticket a = cells.length) (b : β) (hf : (f a b).1 = fun _ => none) :
    amend ticket blank ⟨(i, a) :: es, cells ++ [b]⟩ f i = ⟨es, cells ++ [(f a b).2]⟩ := by
  have hcell : (cells ++ [b]).getD (ticket a) blank = b := by simp [ha]
  rw [amend_of_some f List.lookup_cons_self, hcell, hf, filterMap_tend_none,
    List.filter_cons_of_neg (by simp), filter_ne_of_lookup hi, ha]
  simp

/-! ## Amendments of different entries -/

/-- The tables agree beside the entry under `id` and the cell of its ticket in the first. -/
structure Beside (ticket : α → Nat) (id : Nat) (t u : Table α β) : Prop where
  entries : (u.entries.filter fun (i, _) => i != id) = t.entries.filter fun (i, _) => i != id
  length : u.cells.length = t.cells.length
  cell : ∀ k, (∀ a, t.entries.lookup id = some a → ticket a ≠ k) → u.cells[k]? = t.cells[k]?

theorem Beside.refl (id : Nat) (t : Table α β) : Beside ticket id t t :=
  ⟨rfl, rfl, fun _ _ => rfl⟩

theorem beside_amend (id : Nat) (t : Table α β) :
    Beside ticket id t (t.amend ticket blank f id) := by
  cases h : t.entries.lookup id with
  | none =>
    rw [amend_of_none f h]
    exact .refl id t
  | some a =>
    rw [amend_of_some f h]
    exact ⟨filter_filterMap_tend id _ _, List.length_set,
      fun k hk => List.getElem?_set_ne (hk a h)⟩

theorem lookup_amend (hij : j ≠ i) :
    (t.amend ticket blank f i).entries.lookup j = t.entries.lookup j := by
  cases h : t.entries.lookup i with
  | none => rw [amend_of_none f h]
  | some a =>
    rw [amend_of_some f h]
    exact lookup_filterMap_tend hij _ _

/-- Entries under different ids may be amended in either order. -/
theorem amend_comm (h : Ticketed ticket t.entries t.cells.length) (hij : i ≠ j) :
    (t.amend ticket blank f i).amend ticket blank g j =
      (t.amend ticket blank g j).amend ticket blank f i := by
  cases hi : t.entries.lookup i with
  | none =>
    have hi' : (t.amend ticket blank g j).entries.lookup i = none := (lookup_amend g hij).trans hi
    rw [amend_of_none f hi, amend_of_none f hi']
  | some a =>
    cases hj : t.entries.lookup j with
    | none =>
      have hj' : (t.amend ticket blank f i).entries.lookup j = none :=
        (lookup_amend f hij.symm).trans hj
      rw [amend_of_none g hj, amend_of_none g hj']
    | some b =>
      have hab : ticket a ≠ ticket b := fun hab => hij (h.id_unique hi hj hab)
      simp only [amend, hi, hj, Option.elim, lookup_filterMap_tend hij,
        lookup_filterMap_tend hij.symm, getD_set_of_ne _ _ _ hab, getD_set_of_ne _ _ _ hab.symm]
      rw [filterMap_tend_comm hij, List.set_comm _ _ hab]

/-! ## A table without one entry -/

/-- The second table is the first without the entry under `i`, if there is one; the cell `k` belongs
to that entry alone and may differ. -/
structure Lacks (ticket : α → Nat) (i k : Nat) (t u : Table α β) : Prop where
  entries : u.entries = t.entries.filter fun (j, _) => j != i
  length : u.cells.length = t.cells.length
  cell : ∀ m, m ≠ k → u.cells[m]? = t.cells[m]?
  own : ∀ e ∈ t.entries, e.1 = i ↔ ticket e.2 = k
  lt : k < t.cells.length

namespace Lacks

variable {f} (h : Lacks ticket i k t u)

include h

theorem lookup_self : u.entries.lookup i = none := by
  rw [h.entries, lookup_filter_ne, if_pos rfl]

theorem lookup_of_ne (hj : j ≠ i) : u.entries.lookup j = t.entries.lookup j := by
  rw [h.entries, lookup_filter_ne, if_neg hj]

theorem getD_of_ne {m : Nat} (hm : m ≠ k) : u.cells.getD m blank = t.cells.getD m blank := by
  simp only [List.getD_eq_getElem?_getD, h.cell m hm]

theorem write_left (blank : β) (g : β → β) : Lacks ticket i k (t.write blank g k) u where
  entries := h.entries
  length := h.length.trans List.length_set.symm
  cell m hm := (h.cell m hm).trans (List.getElem?_set_ne hm.symm).symm
  own := h.own
  lt := by simpa [Table.write] using h.lt

theorem write_right (blank : β) (g : β → β) : Lacks ticket i k t (u.write blank g k) where
  entries := h.entries
  length := List.length_set.trans h.length
  cell m hm := (List.getElem?_set_ne hm.symm).trans (h.cell m hm)
  own := h.own
  lt := h.lt

theorem write_of_ne {m : Nat} (hm : m ≠ k) (blank : β) (g : β → β) :
    Lacks ticket i k (t.write blank g m) (u.write blank g m) where
  entries := h.entries
  length := by simp [write, h.length]
  cell l hl := by
    simp only [write, h.getD_of_ne hm, List.getElem?_set, h.length, h.cell l hl]
  own := h.own
  lt := by simpa [Table.write] using h.lt

theorem write (g : β → β) (m : Nat) :
    Lacks ticket i k (t.write blank g m) (u.write blank g m) := by
  by_cases hm : m = k
  · subst hm
    exact (h.write_left blank g).write_right blank g
  · exact h.write_of_ne hm blank g

theorem clear (g : β → β) : Lacks ticket i k (t.apply ticket blank (.clear g))
    (u.apply ticket blank (.clear g)) := by
  have hfold (es : List (Nat × α)) (hes : ∀ e ∈ es, e.1 = i ↔ ticket e.2 = k)
      {t u : Table α β} (h : Lacks ticket i k t u) :
      Lacks ticket i k (es.foldl (fun u e => u.write blank g (ticket e.2)) t)
        ((es.filter fun (j, _) => j != i).foldl (fun u e => u.write blank g (ticket e.2)) u) := by
    induction es generalizing t u with
    | nil => exact h
    | cons e es ih =>
      have hrest : ∀ e ∈ es, e.1 = i ↔ ticket e.2 = k :=
        fun e he => hes e (List.mem_cons_of_mem _ he)
      have he := hes e List.mem_cons_self
      by_cases hi : e.1 = i
      · rw [List.filter_cons_of_neg (by simp [hi]), List.foldl_cons, he.mp hi]
        exact ih hrest (h.write_left blank g)
      · rw [List.filter_cons_of_pos (by simp [hi]), List.foldl_cons, List.foldl_cons]
        exact ih hrest (h.write_of_ne (fun hk => hi (he.mpr hk)) blank g)
  have hall := hfold t.entries h.own h
  rw [← h.entries] at hall
  exact ⟨rfl, hall.length, hall.cell, fun e he => absurd he List.not_mem_nil, hall.lt⟩

theorem own_tend {keep : α → Option α} (hkeep : ∀ a b, keep a = some b → ticket b = ticket a)
    {id : Nat} : ∀ e ∈ t.entries.filterMap (tend id keep), e.1 = i ↔ ticket e.2 = k := by
  intro e he
  rcases mem_filterMap_tend he with he | ⟨a, ha, hea⟩
  · exact h.own e he
  · rw [hkeep a e.2 hea]
    exact h.own _ ha

theorem amend (hf : ∀ a b c d, (f a b).1 c = some d → ticket d = ticket c) (id : Nat) :
    Lacks ticket i k (t.amend ticket blank f id) (u.amend ticket blank f id) := by
  by_cases hid : id = i
  · subst hid
    rw [amend_of_none f h.lookup_self]
    cases ha : t.entries.lookup id with
    | none => rwa [amend_of_none f ha]
    | some a =>
      have hk : ticket a = k := (h.own _ (mem_of_lookup ha)).mp rfl
      have hw := h.write_left blank fun b => (f a b).2
      rw [amend_of_some f ha, hk]
      exact ⟨hw.entries.trans (filter_filterMap_tend id _ _).symm, hw.length, hw.cell,
        h.own_tend (hf a _), hw.lt⟩
  · cases ha : t.entries.lookup id with
    | none => rwa [amend_of_none f ha, amend_of_none f ((h.lookup_of_ne hid).trans ha)]
    | some a =>
      have hk : ticket a ≠ k := fun hk => hid ((h.own _ (mem_of_lookup ha)).mpr hk)
      have hw := h.write_of_ne hk blank fun b => (f a b).2
      simp only [Table.write, h.getD_of_ne hk] at hw
      rw [amend_of_some f ha, amend_of_some f ((h.lookup_of_ne hid).trans ha), h.getD_of_ne hk]
      refine ⟨?_, hw.length, hw.cell, h.own_tend (hf a _), hw.lt⟩
      rw [filter_filterMap_tend_of_ne (Ne.symm hid), h.entries]

/-- Taking the entry out leaves what the other table has always been. -/
theorem take_out (blank : β) (hf : ∀ a b, (f a b).1 = fun _ => none) :
    (t.amend ticket blank f i).entries = u.entries ∧
      ∀ m, m ≠ k → (t.amend ticket blank f i).cells[m]? = u.cells[m]? := by
  cases ha : t.entries.lookup i with
  | none =>
    rw [amend_of_none f ha, h.entries, filter_ne_of_lookup ha]
    exact ⟨rfl, fun m hm => (h.cell m hm).symm⟩
  | some a =>
    have hk : ticket a = k := (h.own _ (mem_of_lookup ha)).mp rfl
    rw [amend_of_some f ha, hf, filterMap_tend_none, hk]
    exact ⟨h.entries.symm, fun m hm =>
      (List.getElem?_set_ne hm.symm).trans (h.cell m hm).symm⟩

/-- An id is entered in both tables alike, with the same ticket. -/
theorem enter (hf : ∀ a b c d, (f a b).1 c = some d → ticket d = ticket c) {id : Nat}
    (hid : id ≠ i) {new : Nat → α} (hnew : ∀ n, ticket (new n) = n) (b : β) :
    Lacks ticket i k (t.apply ticket blank (.enter id new b f))
      (u.apply ticket blank (.enter id new b f)) := by
  have ha : Lacks ticket i k (t.amend ticket blank f id) (u.amend ticket blank f id) :=
    h.amend hf id
  have hlen : t.cells.length = (t.amend ticket blank f id).cells.length := (length_amend f id).symm
  simp only [apply]
  refine ⟨?_, by simp [h.length], fun m hm => ?_, ?_, ?_⟩
  · rw [List.filter_cons_of_pos (by simpa using hid), ← ha.entries, h.length]
  · rw [List.getElem?_append, List.getElem?_append, ha.length, ha.cell m hm]
  · intro e he
    rcases List.mem_cons.mp he with rfl | he
    · have hlt := h.lt
      simp only [hnew]
      constructor
      · exact fun hi => absurd hi hid
      · omega
    · exact ha.own e he
  · have hlt := ha.lt
    rw [List.length_append]
    omega

end Lacks

theorem lacks_cons {es : List (Nat × α)} {cells : List β}
    (h : Ticketed ticket es cells.length) (hi : es.lookup i = none) {a : α}
    (ha : ticket a = cells.length) (b c : β) :
    Lacks ticket i cells.length ⟨(i, a) :: es, cells ++ [b]⟩ ⟨es, cells ++ [c]⟩ where
  entries := by rw [List.filter_cons_of_neg (by simp), filter_ne_of_lookup hi]
  length := by simp
  cell m hm := by
    by_cases hlt : m < cells.length
    · rw [List.getElem?_append_left hlt, List.getElem?_append_left hlt]
    · rw [List.getElem?_eq_none (by simp; omega), List.getElem?_eq_none (by simp; omega)]
  own e he := by
    rcases List.mem_cons.mp he with rfl | he
    · simp [ha]
    · have hne : e.1 ≠ i := fun hei => notMem_keys_of_lookup hi (hei ▸ List.mem_map_of_mem he)
      have hlt := h.bounded e he
      exact ⟨fun hei => absurd hei hne, fun hk => absurd hk (Nat.ne_of_lt hlt)⟩
  lt := by simp

def Op.entered? : Op α β → Option Nat
  | .enter id .. => some id
  | _ => none

/-- Entries keep their tickets, and a new one gets the next. -/
def Op.Keeps (ticket : α → Nat) : Op α β → Prop
  | .enter _ new _ f => (∀ n, ticket (new n) = n) ∧
      ∀ a b c d, (f a b).1 c = some d → ticket d = ticket c
  | .amend _ f => ∀ a b c d, (f a b).1 c = some d → ticket d = ticket c
  | .clear _ | .write _ _ => True

/-- An operation does beside an entry what it would have done without it. -/
theorem Lacks.apply (h : Lacks ticket i k t u) {op : Op α β} (hk : op.Keeps ticket)
    (hi : op.entered? ≠ some i) :
    Lacks ticket i k (t.apply ticket blank op) (u.apply ticket blank op) := by
  cases op with
  | enter id new b f => exact h.enter hk.2 (fun hid => hi (congrArg some hid)) hk.1 b
  | amend id f => exact h.amend hk id
  | clear g => exact h.clear g
  | write m g => exact h.write g m

end Table

end ShipBridge.Session
