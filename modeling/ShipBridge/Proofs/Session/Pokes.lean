import ShipBridge.Proofs.Session.Tables
import ShipBridge.Session.Pokes

/-!
# The table of waiting pokes

Every change to the table is one of five operations, and each of them keeps it in order. What an
operation does is said by two views, the ticket under an id and the slot of a ticket. A ticket that
is no longer waiting keeps its slot for ever.
-/

namespace ShipBridge.Session

namespace Pokes

inductive Op where
  | register (id : Nat)
  | resolve (id : Nat) (a : Answer)
  | remove (id : Nat)
  | failAll (fault : Fault)
  | abandon (ticket : Nat)

def apply (p : Pokes) : Op → Pokes
  | .register id => (p.register id).2
  | .resolve id a => (p.resolve id a).2
  | .remove id => (p.remove id).2
  | .failAll fault => (p.failAll fault).2
  | .abandon ticket => (p.abandon ticket).2

def Sound (p : Pokes) : Prop := Ticketed (fun t => t) p.entries p.slots.length

variable (p : Pokes)

/-! ## Settling and erasing -/

theorem slot_of_length_le {t : Nat} (h : p.slots.length ≤ t) : p.slot t = .discarded := by
  simp [slot, List.getD_eq_getElem?_getD, List.getElem?_eq_none h]

theorem lt_length_of_waiting {t : Nat} (h : p.slot t = .waiting) : t < p.slots.length := by
  by_contra hn
  rw [p.slot_of_length_le (by omega)] at h
  cases h

theorem slot_set {t u : Nat} (x : Slot) (h : t < p.slots.length) :
    ({ p with slots := p.slots.set t x } : Pokes).slot u = if u = t then x else p.slot u := by
  by_cases hu : u = t
  · subst u
    simp [slot, List.getD_eq_getElem?_getD, h]
  · simp [slot, List.getD_eq_getElem?_getD, Ne.symm hu, hu]

@[simp] theorem settle_entries (t : Nat) (x : Slot) : (p.settle t x).entries = p.entries := by
  unfold settle
  split <;> rfl

@[simp] theorem settle_length (t : Nat) (x : Slot) :
    (p.settle t x).slots.length = p.slots.length := by
  unfold settle
  split <;> simp

theorem slot_settle_of_ne {t u : Nat} (x : Slot) (h : u ≠ t) :
    (p.settle t x).slot u = p.slot u := by
  unfold settle
  split
  · next hw => rw [p.slot_set x (p.lt_length_of_waiting hw), if_neg h]
  · rfl

theorem slot_settle_of_waiting {t : Nat} (x : Slot) (h : p.slot t = .waiting) :
    (p.settle t x).slot t = x := by
  simp only [settle, h, p.slot_set x (p.lt_length_of_waiting h), if_true]

theorem slot_settle_of_not_waiting {t u : Nat} (x : Slot) (h : p.slot u ≠ .waiting) :
    (p.settle t x).slot u = p.slot u := by
  by_cases hu : u = t
  · subst u
    unfold settle
    split
    · next hw => exact absurd hw h
    · rfl
  · exact p.slot_settle_of_ne x hu

@[simp] theorem slot_erase (i t : Nat) : (p.erase i).slot t = p.slot t := rfl

@[simp] theorem erase_length (i : Nat) : (p.erase i).slots.length = p.slots.length := rfl

@[simp] theorem ticket?_settle (t : Nat) (x : Slot) (j : Nat) :
    (p.settle t x).ticket? j = p.ticket? j := by simp [ticket?]

@[simp] theorem ticket?_erase (i j : Nat) :
    (p.erase i).ticket? j = if j = i then none else p.ticket? j :=
  lookup_filter_ne p.entries i j

theorem Sound.settle {p : Pokes} (h : p.Sound) (t : Nat) (x : Slot) : (p.settle t x).Sound := by
  simpa [Sound] using h

theorem Sound.erase {p : Pokes} (h : p.Sound) (i : Nat) : (p.erase i).Sound :=
  Ticketed.filter h _

/-! ## The operations -/

/-- The table after an entry, if there is one, has been settled and taken out. -/
def close (id : Nat) (x : Slot) : Pokes := (p.ticket? id).elim p fun t => (p.settle t x).erase id

theorem resolve_snd (id : Nat) (a : Answer) : (p.resolve id a).2 = p.close id (.answered a) := by
  unfold resolve close
  cases p.ticket? id <;> rfl

theorem remove_snd (id : Nat) : (p.remove id).2 = p.close id .discarded := by
  unfold remove close
  cases p.ticket? id <;> rfl

theorem register_snd (id : Nat) : (p.register id).2 =
    ⟨(id, p.slots.length) :: (p.close id .discarded).entries,
      (p.close id .discarded).slots ++ [.waiting]⟩ := by
  unfold register close
  cases p.ticket? id <;> simp [erase]

theorem register_fst (id : Nat) : (p.register id).1 = p.slots.length := by
  unfold register
  cases p.ticket? id <;> simp

@[simp] theorem close_length (id : Nat) (x : Slot) :
    (p.close id x).slots.length = p.slots.length := by
  unfold close
  cases p.ticket? id <;> simp

@[simp] theorem ticket?_close (id : Nat) (x : Slot) (j : Nat) :
    (p.close id x).ticket? j = if j = id then none else p.ticket? j := by
  unfold close
  cases h : p.ticket? id with
  | none => by_cases hj : j = id <;> simp [hj, h]
  | some t => simp

theorem Sound.close {p : Pokes} (h : p.Sound) (id : Nat) (x : Slot) : (p.close id x).Sound := by
  unfold Pokes.close
  cases p.ticket? id with
  | none => exact h
  | some t => exact (h.settle t x).erase id

theorem failAll_snd (fault : Fault) : (p.failAll fault).2 = { p.entries.foldl
    (fun p e => p.settle e.2 (.answered (.error fault))) p with entries := [] } := rfl

theorem foldl_settle_length (es : List (Nat × Nat)) (x : Slot) :
    (es.foldl (fun p e => p.settle e.2 x) p).slots.length = p.slots.length := by
  induction es generalizing p with
  | nil => rfl
  | cons e es ih => simp [ih]

theorem Sound.register {p : Pokes} (h : p.Sound) (id : Nat) : (p.register id).2.Sound := by
  have hc := h.close id .discarded
  have hn : (p.close id .discarded).ticket? id = none := by rw [ticket?_close, if_pos rfl]
  rw [register_snd]
  simpa [Sound] using Ticketed.cons hc hn (by simp)

theorem Sound.apply {p : Pokes} (h : p.Sound) (op : Op) : (p.apply op).Sound := by
  cases op with
  | register id => exact h.register id
  | resolve id a =>
    rw [Pokes.apply, resolve_snd]
    exact h.close id _
  | remove id =>
    rw [Pokes.apply, remove_snd]
    exact h.close id _
  | failAll fault => exact Ticketed.nil
  | abandon t =>
    simp only [Pokes.apply, abandon]
    split
    · simpa [Sound] using h
    · exact h

/-! ## One ticket -/

variable {p}

theorem ticket?_register (id : Nat) : (p.register id).2.ticket? id = some p.slots.length := by
  simp [register_snd, ticket?]

theorem slot_register (id : Nat) : (p.register id).2.slot p.slots.length = .waiting := by
  simp [register_snd, slot]

theorem slot_register_of_lt {t : Nat} (id : Nat) (h : t < p.slots.length) :
    (p.register id).2.slot t = (p.close id .discarded).slot t := by
  have hc : t < (p.close id .discarded).slots.length := by simpa using h
  rw [register_snd]
  simp only [slot, List.getD_eq_getElem?_getD, List.getElem?_append_left hc]

theorem ticket?_register_of_ne {id j : Nat} (h : j ≠ id) :
    (p.register id).2.ticket? j = p.ticket? j := by
  have hc : (p.close id .discarded).ticket? j = p.ticket? j := by rw [ticket?_close, if_neg h]
  rw [register_snd, ticket?, lookup_cons_of_ne _ h]
  exact hc

theorem slot_close_of_not_waiting {t : Nat} (id : Nat) (x : Slot) (h : p.slot t ≠ .waiting) :
    (p.close id x).slot t = p.slot t := by
  unfold close
  cases p.ticket? id with
  | none => rfl
  | some u => exact p.slot_settle_of_not_waiting x h

theorem slot_close_of_ne {t i : Nat} (h : p.Sound) (hi : p.ticket? i = some t) {id : Nat}
    (hid : id ≠ i) (x : Slot) : (p.close id x).slot t = p.slot t := by
  unfold close
  cases hu : p.ticket? id with
  | none => rfl
  | some u =>
    have htu : t ≠ u := by
      rintro rfl
      exact hid (Ticketed.id_unique h hu hi rfl)
    exact p.slot_settle_of_ne x htu

theorem slot_close_self {t i : Nat} (hi : p.ticket? i = some t) (hw : p.slot t = .waiting)
    (x : Slot) : (p.close i x).slot t = x := by
  simpa [close, hi] using p.slot_settle_of_waiting x hw

theorem slot_foldl_settle_of_not_waiting {t : Nat} (es : List (Nat × Nat)) (x : Slot)
    (h : p.slot t ≠ .waiting) : (es.foldl (fun p e => p.settle e.2 x) p).slot t = p.slot t := by
  induction es generalizing p with
  | nil => rfl
  | cons e es ih =>
    have hs := p.slot_settle_of_not_waiting (t := e.2) x h
    rw [List.foldl_cons, ih (by rwa [hs]), hs]

theorem slot_foldl_settle_of_mem {t : Nat} {es : List (Nat × Nat)} {x : Slot} (hx : x ≠ .waiting)
    (ht : t ∈ es.map Prod.snd) (hw : p.slot t = .waiting) :
    (es.foldl (fun p e => p.settle e.2 x) p).slot t = x := by
  induction es generalizing p with
  | nil => simp at ht
  | cons e es ih =>
    rw [List.foldl_cons]
    by_cases he : t = e.2
    · subst he
      have hs := p.slot_settle_of_waiting x hw
      rw [slot_foldl_settle_of_not_waiting es x (by rwa [hs]), hs]
    · have ht' : t ∈ es.map Prod.snd := (List.mem_cons.mp ht).resolve_left he
      exact ih ht' ((p.slot_settle_of_ne x he).trans hw)

/-- A ticket that is no longer waiting keeps its slot. -/
theorem slot_apply_of_not_waiting {t : Nat} (op : Op) (ht : t < p.slots.length)
    (h : p.slot t ≠ .waiting) : (p.apply op).slot t = p.slot t := by
  cases op with
  | register id => exact (slot_register_of_lt id ht).trans (slot_close_of_not_waiting id _ h)
  | resolve id a =>
    rw [apply, resolve_snd]
    exact slot_close_of_not_waiting id _ h
  | remove id =>
    rw [apply, remove_snd]
    exact slot_close_of_not_waiting id _ h
  | failAll fault => exact slot_foldl_settle_of_not_waiting p.entries _ h
  | abandon u =>
    simp only [apply, abandon]
    split
    · next hw =>
      rw [p.slot_set _ (p.lt_length_of_waiting hw)]
      by_cases hu : t = u
      · exact absurd (hu ▸ hw) h
      · rw [if_neg hu]
    · rfl

/-- What an operation decides about the poke `i`, if it ends that entry. -/
def Op.verdict? (i : Nat) : Op → Option Answer
  | .resolve id a => if id = i then some a else none
  | .remove id => if id = i then some (.error .closed) else none
  | .failAll fault => some (.error fault)
  | .register _ | .abandon _ => none

theorem length_le_apply (op : Op) : p.slots.length ≤ (p.apply op).slots.length := by
  cases op with
  | register id => simp [apply, register_snd]
  | resolve id a => simp [apply, resolve_snd]
  | remove id => simp [apply, remove_snd]
  | failAll fault => simp [apply, failAll_snd, foldl_settle_length]
  | abandon u =>
    simp only [apply, abandon]
    split <;> simp

theorem ticket?_apply_of_none {i : Nat} {op : Op} (h : p.ticket? i = none)
    (hop : op ≠ .register i) : (p.apply op).ticket? i = none := by
  cases op with
  | register id =>
    have hne : i ≠ id := by
      rintro rfl
      exact hop rfl
    exact (ticket?_register_of_ne hne).trans h
  | resolve id a => simp [apply, resolve_snd, h]
  | remove id => simp [apply, remove_snd, h]
  | failAll fault => rfl
  | abandon u =>
    simp only [apply, abandon]
    split <;> exact h

/-- An entry was there before, or has just been made. -/
theorem ticket?_apply {i u : Nat} {op : Op} (h : (p.apply op).ticket? i = some u) :
    p.ticket? i = some u ∨ (op = .register i ∧ u = p.slots.length) := by
  have hclose {id : Nat} {x : Slot} (h : (p.close id x).ticket? i = some u) :
      p.ticket? i = some u := by
    rw [ticket?_close] at h
    split_ifs at h
    exact h
  cases op with
  | register id =>
    by_cases hi : i = id
    · subst hi
      rw [apply, ticket?_register] at h
      exact .inr ⟨rfl, (Option.some.inj h).symm⟩
    · exact .inl ((ticket?_register_of_ne hi).symm.trans h)
  | resolve id a => exact .inl (hclose (by rwa [apply, resolve_snd] at h))
  | remove id => exact .inl (hclose (by rwa [apply, remove_snd] at h))
  | failAll fault => cases h
  | abandon t =>
    simp only [apply, abandon] at h
    split at h <;> exact .inl h

/-- As long as there is an entry, its ticket has brought nothing. -/
def Unsettled (p : Pokes) : Prop := ∀ i u, p.ticket? i = some u → (p.slot u).outcome? = none

theorem Unsettled.apply (hs : p.Sound) (h : p.Unsettled) (op : Op) : (p.apply op).Unsettled := by
  have hclose (id : Nat) (x : Slot) : (p.close id x).Unsettled := by
    intro i u hu
    rw [ticket?_close] at hu
    split_ifs at hu with hi
    rw [slot_close_of_ne hs hu (Ne.symm hi) x]
    exact h i u hu
  intro i u hu
  cases op with
  | register id =>
    by_cases hi : i = id
    · subst hi
      rw [Pokes.apply, ticket?_register] at hu
      rw [← Option.some.inj hu, Pokes.apply, slot_register]
      rfl
    · have hold : p.ticket? i = some u := (ticket?_register_of_ne hi).symm.trans hu
      rw [Pokes.apply, slot_register_of_lt id (Ticketed.ticket_lt hs hold)]
      exact hclose id .discarded i u (by rw [ticket?_close, if_neg hi, hold])
  | resolve id a =>
    rw [Pokes.apply, resolve_snd] at hu ⊢
    exact hclose id _ i u hu
  | remove id =>
    rw [Pokes.apply, remove_snd] at hu ⊢
    exact hclose id _ i u hu
  | failAll fault => cases hu
  | abandon t =>
    simp only [Pokes.apply, abandon] at hu ⊢
    split at hu
    · next hw =>
      dsimp only
      rw [p.slot_set _ (p.lt_length_of_waiting hw)]
      split_ifs
      · rfl
      · exact h i u hu
    · exact h i u hu

/-- The poke `i` waits, and its ticket is held. -/
structure Awaits (p : Pokes) (i t : Nat) : Prop where
  ticket : p.ticket? i = some t
  slot : p.slot t = .waiting

/-- The poke `i` has been decided. -/
structure Decided (p : Pokes) (i t : Nat) (v : Answer) : Prop where
  ticket : p.ticket? i = none
  outcome : (p.slot t).outcome? = some v
  lt : t < p.slots.length

theorem awaits_register (p : Pokes) (id : Nat) :
    (p.register id).2.Awaits id (p.register id).1 := by
  rw [register_fst]
  exact ⟨ticket?_register id, slot_register id⟩

section Awaits

variable {i t : Nat} {op : Op} (hs : p.Sound) (h : p.Awaits i t)

include hs h

theorem Awaits.apply_of_verdict {v : Answer} (hv : op.verdict? i = some v) :
    (p.apply op).Decided i t v := by
  have hlt : t < (p.apply op).slots.length :=
    Nat.lt_of_lt_of_le (Ticketed.ticket_lt hs h.ticket) (length_le_apply op)
  cases op with
  | resolve id a =>
    obtain ⟨rfl, rfl⟩ : id = i ∧ a = v := by simpa [Op.verdict?] using hv
    refine ⟨?_, ?_, hlt⟩ <;> rw [apply, resolve_snd]
    · simp
    · rw [slot_close_self h.ticket h.slot]
      rfl
  | remove id =>
    obtain ⟨rfl, rfl⟩ : id = i ∧ .error .closed = v := by simpa [Op.verdict?] using hv
    refine ⟨?_, ?_, hlt⟩ <;> rw [apply, remove_snd]
    · simp
    · rw [slot_close_self h.ticket h.slot]
      rfl
  | failAll fault =>
    obtain rfl : .error fault = v := by simpa [Op.verdict?] using hv
    have ht : t ∈ p.entries.map Prod.snd := List.mem_map_of_mem (mem_of_lookup h.ticket)
    have hx : (p.apply (.failAll fault)).slot t = .answered (.error fault) :=
      slot_foldl_settle_of_mem (by simp) ht h.slot
    exact ⟨rfl, by rw [hx]; rfl, hlt⟩
  | register id => cases hv
  | abandon u => cases hv

theorem Awaits.apply_of_stay (hv : op.verdict? i = none) (hr : op ≠ .register i)
    (ha : op ≠ .abandon t) : (p.apply op).Awaits i t := by
  have hclose {id : Nat} (hid : id ≠ i) (x : Slot) : (p.close id x).Awaits i t :=
    ⟨by rw [ticket?_close, if_neg hid.symm, h.ticket],
      (slot_close_of_ne hs h.ticket hid x).trans h.slot⟩
  cases op with
  | resolve id a =>
    rw [apply, resolve_snd]
    exact hclose (by simpa [Op.verdict?] using hv) _
  | remove id =>
    rw [apply, remove_snd]
    exact hclose (by simpa [Op.verdict?] using hv) _
  | failAll fault => cases hv
  | register id =>
    have hid : id ≠ i := fun hid => hr (hid ▸ rfl)
    have hc := hclose hid .discarded
    exact ⟨(ticket?_register_of_ne hid.symm).trans h.ticket,
      (slot_register_of_lt id (Ticketed.ticket_lt hs h.ticket)).trans hc.slot⟩
  | abandon u =>
    have hu : t ≠ u := fun hu => ha (hu ▸ rfl)
    simp only [apply, abandon]
    split
    · next hv =>
      exact ⟨h.ticket, by rw [p.slot_set _ (p.lt_length_of_waiting hv), if_neg hu, h.slot]⟩
    · exact h

end Awaits

theorem Decided.apply {i t : Nat} {v : Answer} (h : p.Decided i t v) {op : Op}
    (hop : op ≠ .register i) : (p.apply op).Decided i t v := by
  have hw : p.slot t ≠ .waiting := by
    intro hw
    have ho := h.outcome
    rw [hw] at ho
    cases ho
  refine ⟨ticket?_apply_of_none h.ticket hop, ?_, Nat.lt_of_lt_of_le h.lt (length_le_apply op)⟩
  rw [slot_apply_of_not_waiting op h.lt hw, h.outcome]

end Pokes

end ShipBridge.Session
