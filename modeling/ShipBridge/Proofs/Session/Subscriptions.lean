import ShipBridge.Proofs.Session.Tables
import ShipBridge.Session.Subscriptions

/-!
# The table of open subscriptions

Every change to the table is one of seven operations, and each of them keeps it in order. An open
subscription that is listened to takes in the diffs for it; the first operation that ends it puts
the last notice into its mailbox. A mailbox without an entry is never touched again.
-/

namespace ShipBridge.Session

namespace Subscriptions

inductive Op where
  | register (id : Nat)
  | deliver (id : Nat) (json : Json)
  | reject (id : Nat) (message : String)
  | quit (id : Nat)
  | remove (id : Nat)
  | terminateAll (reason : String)
  | abandon (ticket : Nat)

def apply (s : Subscriptions) : Op → Subscriptions
  | .register id => (s.register id).2
  | .deliver id json => (s.deliver id json).2
  | .reject id message => (s.reject id message).2
  | .quit id => (s.quit id).2
  | .remove id => (s.remove id).2
  | .terminateAll reason => (s.terminateAll reason).2
  | .abandon ticket => (s.abandon ticket).2

def Sound (s : Subscriptions) : Prop := Ticketed Entry.ticket s.entries s.mailboxes.length

/-- A mailbox that belongs to no entry. -/
structure Loose (s : Subscriptions) (t : Nat) : Prop where
  lt : t < s.mailboxes.length
  free : ∀ e ∈ s.entries, e.2.ticket ≠ t

variable (s : Subscriptions)

/-! ## Mailboxes -/

@[simp] theorem setMailbox_length (t : Nat) (m : Mailbox) :
    (s.setMailbox t m).mailboxes.length = s.mailboxes.length := List.length_set

theorem mailbox_setMailbox {t u : Nat} (m : Mailbox) (h : t < s.mailboxes.length) :
    (s.setMailbox t m).mailbox u = if u = t then m else s.mailbox u := by
  by_cases hu : u = t
  · subst u
    simp [mailbox, setMailbox, List.getD_eq_getElem?_getD, h]
  · simp [mailbox, setMailbox, List.getD_eq_getElem?_getD, Ne.symm hu, hu]

theorem mailbox_setMailbox_of_ne {t u : Nat} (m : Mailbox) (h : u ≠ t) :
    (s.setMailbox t m).mailbox u = s.mailbox u := by
  simp [mailbox, setMailbox, List.getD_eq_getElem?_getD, h.symm]

@[simp] theorem post_entries (t : Nat) (x : Notice) : (s.post t x).entries = s.entries := by
  unfold post
  simp only
  split_ifs <;> rfl

@[simp] theorem post_length (t : Nat) (x : Notice) :
    (s.post t x).mailboxes.length = s.mailboxes.length := by
  unfold post
  simp only
  split_ifs <;> simp

theorem mailbox_post_of_ne {t u : Nat} (x : Notice) (h : u ≠ t) :
    (s.post t x).mailbox u = s.mailbox u := by
  unfold post
  simp only
  split_ifs
  · rfl
  · exact s.mailbox_setMailbox_of_ne _ h

theorem mailbox_post_self {t : Nat} {m : Mailbox} (x : Notice) (ht : t < s.mailboxes.length)
    (hm : s.mailbox t = m) (ha : m.abandoned = false) :
    (s.post t x).mailbox t = { m with notices := m.notices ++ [x] } := by
  simp [post, hm, ha, s.mailbox_setMailbox _ ht]

/-- Detach a mailbox, after a last notice if there is one. -/
def finish (t : Nat) (last : Option Notice) : Subscriptions := (last.elim s (s.post t)).detach t

@[simp] theorem finish_entries (t : Nat) (last : Option Notice) :
    (s.finish t last).entries = s.entries := by
  cases last with
  | none => rfl
  | some x => exact s.post_entries t x

@[simp] theorem finish_length (t : Nat) (last : Option Notice) :
    (s.finish t last).mailboxes.length = s.mailboxes.length := by
  cases last <;> simp [finish, detach]

theorem mailbox_finish_of_ne {t u : Nat} (last : Option Notice) (h : u ≠ t) :
    (s.finish t last).mailbox u = s.mailbox u := by
  rw [finish, detach, mailbox_setMailbox_of_ne _ _ h]
  cases last with
  | none => rfl
  | some x => exact s.mailbox_post_of_ne x h

theorem mailbox_finish_self {t : Nat} {ns : List Notice} (last : Option Notice)
    (ht : t < s.mailboxes.length) (hm : s.mailbox t = ⟨ns, true, false⟩) :
    (s.finish t last).mailbox t = ⟨ns ++ last.toList, false, false⟩ := by
  cases last with
  | none => simp [finish, detach, s.mailbox_setMailbox _ ht, hm]
  | some x =>
    have hl : t < (s.post t x).mailboxes.length := by simpa using ht
    simp [finish, detach, (s.post t x).mailbox_setMailbox _ hl, s.mailbox_post_self x ht hm rfl]

/-! ## Entries -/

@[simp] theorem mailbox_erase (i t : Nat) : (s.erase i).mailbox t = s.mailbox t := rfl

@[simp] theorem erase_length (i : Nat) : (s.erase i).mailboxes.length = s.mailboxes.length := rfl

@[simp] theorem entry?_erase (i j : Nat) :
    entry? (s.erase i) j = if j = i then none else s.entry? j :=
  lookup_filter_ne s.entries i j

def close (id : Nat) (last : Option Notice) : Subscriptions :=
  ( s.entry? id).elim s fun e => (s.finish e.ticket last).erase id

@[simp] theorem close_length (id : Nat) (last : Option Notice) :
    (s.close id last).mailboxes.length = s.mailboxes.length := by
  unfold close
  cases s.entry? id <;> simp

@[simp] theorem entry?_close (id : Nat) (last : Option Notice) (j : Nat) :
    entry? (s.close id last) j = if j = id then none else s.entry? j := by
  unfold close
  cases h : s.entry? id with
  | none => by_cases hj : j = id <;> simp [hj, h]
  | some e =>
    have hf : entry? (s.finish e.ticket last) j = s.entry? j := by simp [ entry?]
    simp [hf]

def bump (id : Nat) : Subscriptions :=
  { s with entries := s.entries.map fun (i, f) =>
      if i = id then (i, { f with diffs := f.diffs + 1 }) else (i, f) }

theorem entry?_bump (id j : Nat) : entry? (s.bump id) j =
    if j = id then ( s.entry? j).map fun e => { e with diffs := e.diffs + 1 } else s.entry? j := by
  obtain ⟨es, ms⟩ := s
  change (es.map _).lookup j = if j = id then (es.lookup j).map _ else es.lookup j
  induction es with
  | nil => simp
  | cons e es ih =>
    obtain ⟨k, f⟩ := e
    by_cases hk : k = id <;> by_cases hj : j = k
    · simp [hk, hj]
    · have hb : (j == k) = false := by simpa using hj
      simp only [List.map_cons, hk, if_true, List.lookup_cons]
      rw [← hk, hb]
      simpa [hk] using ih
    · simp [hj, hk]
    · have hb : (j == k) = false := by simpa using hj
      simp only [List.map_cons, hk, if_false, List.lookup_cons, hb]
      exact ih

/-! ## The operations -/

theorem terminate_snd (id : Nat) (x : Notice) : (s.terminate id x).2 = s.close id (some x) := by
  unfold terminate close
  cases s.entry? id <;> rfl

theorem remove_snd (id : Nat) : (s.remove id).2 = s.close id none := by
  unfold remove close
  cases s.entry? id <;> rfl

theorem reject_snd (id : Nat) (message : String) : (s.reject id message).2 =
    if ( s.entry? id).any (·.diffs = 0) then s.close id (some (.refused message)) else s := by
  unfold reject
  cases h : s.entry? id with
  | none => simp
  | some e =>
    by_cases hd : e.diffs = 0
    · simp [hd, terminate_snd]
    · simp [hd]

theorem deliver_snd (id : Nat) (json : Json) :
    (s.deliver id json).2 = ( s.entry? id).elim s fun e =>
      if (s.mailbox e.ticket).abandoned then s.close id none
      else (s.bump id).post e.ticket (.diff json) := by
  unfold deliver
  cases h : s.entry? id with
  | none => rfl
  | some e =>
    simp only [Option.elim]
    split_ifs with ha
    · rw [close, h]
      rfl
    · rfl

theorem register_snd (id : Nat) : (s.register id).2 =
    ⟨(id, { ticket := s.mailboxes.length }) :: (s.close id none).entries,
      (s.close id none).mailboxes ++ [({} : Mailbox)]⟩ := by
  unfold register close
  cases s.entry? id <;> simp [erase, detach, finish]

theorem register_fst (id : Nat) : (s.register id).1 = s.mailboxes.length := by
  unfold register
  cases s.entry? id <;> simp [detach]

theorem terminateAll_snd (reason : String) : (s.terminateAll reason).2 = { s.entries.foldl
    (fun s e => s.finish e.2.ticket (some (.refused reason))) s with entries := [] } := rfl

theorem foldl_finish_length (es : List (Nat × Entry)) (last : Option Notice) :
    (es.foldl (fun s e => s.finish e.2.ticket last) s).mailboxes.length = s.mailboxes.length := by
  induction es generalizing s with
  | nil => rfl
  | cons e es ih => simp [ih]

variable {s}

theorem mailbox_foldl_finish_of_notMem {t : Nat} {es : List (Nat × Entry)} (last : Option Notice)
    (ht : t ∉ es.map fun e => e.2.ticket) :
    (es.foldl (fun s e => s.finish e.2.ticket last) s).mailbox t = s.mailbox t := by
  induction es generalizing s with
  | nil => rfl
  | cons e es ih =>
    rw [List.map_cons, List.mem_cons, not_or] at ht
    rw [List.foldl_cons, ih ht.2, s.mailbox_finish_of_ne last ht.1]

theorem mailbox_foldl_finish_of_mem {t : Nat} {es : List (Nat × Entry)} {ns : List Notice}
    (last : Option Notice) (hn : (es.map fun e => e.2.ticket).Nodup)
    (ht : t ∈ es.map fun e => e.2.ticket) (hl : t < s.mailboxes.length)
    (hm : s.mailbox t = ⟨ns, true, false⟩) :
    (es.foldl (fun s e => s.finish e.2.ticket last) s).mailbox t =
      ⟨ns ++ last.toList, false, false⟩ := by
  induction es generalizing s with
  | nil => cases ht
  | cons e es ih =>
    rw [List.map_cons, List.nodup_cons] at hn
    rw [List.foldl_cons]
    by_cases he : t = e.2.ticket
    · subst he
      rw [mailbox_foldl_finish_of_notMem last hn.1, s.mailbox_finish_self last hl hm]
    · have ht' : t ∈ es.map fun e => e.2.ticket := (List.mem_cons.mp ht).resolve_left he
      exact ih hn.2 ht' (by simpa using hl) ((s.mailbox_finish_of_ne last he).trans hm)

/-- An operation ends one entry or all of them, posts a diff, enters a new id, or marks a mailbox
as abandoned; otherwise it does nothing. -/
theorem apply_cases (s : Subscriptions) (op : Op) :
    s.apply op = s ∨ (∃ id last, s.apply op = s.close id last) ∨
      (∃ id json e, s.entry? id = some e ∧
        s.apply op = (s.bump id).post e.ticket (.diff json)) ∨
      (∃ id, op = .register id) ∨ (∃ reason, op = .terminateAll reason) ∨
      ∃ t m, s.apply op = s.setMailbox t m ∧ (s.mailbox t).attached = true := by
  cases op with
  | register id => exact .inr (.inr (.inr (.inl ⟨id, rfl⟩)))
  | deliver id json =>
    rw [apply, deliver_snd]
    cases h : s.entry? id with
    | none => exact .inl rfl
    | some e =>
      simp only [Option.elim]
      split_ifs
      · exact .inr (.inl ⟨id, none, rfl⟩)
      · exact .inr (.inr (.inl ⟨id, json, e, h, rfl⟩))
  | reject id message =>
    rw [apply, reject_snd]
    split_ifs
    · exact .inr (.inl ⟨id, _, rfl⟩)
    · exact .inl rfl
  | quit id => exact .inr (.inl ⟨id, _, s.terminate_snd id .quit⟩)
  | remove id => exact .inr (.inl ⟨id, none, s.remove_snd id⟩)
  | terminateAll reason => exact .inr (.inr (.inr (.inr (.inl ⟨reason, rfl⟩))))
  | abandon t =>
    simp only [apply, abandon]
    split_ifs with h
    · exact .inl rfl
    · refine .inr (.inr (.inr (.inr (.inr ⟨t, _, rfl, ?_⟩))))
      have ha : (s.mailbox t).abandoned = false ∧ (s.mailbox t).attached = true := by simpa using h
      exact ha.2

theorem Sound.close (h : s.Sound) (id : Nat) (last : Option Notice) : (s.close id last).Sound := by
  unfold Subscriptions.close
  cases s.entry? id with
  | none => exact h
  | some e =>
    have hf : (s.finish e.ticket last).Sound := by simpa [Sound] using h
    exact Ticketed.filter hf _

theorem Sound.bump (h : s.Sound) (id : Nat) : (s.bump id).Sound := by
  have hfst : (s.bump id).entries.map Prod.fst = s.entries.map Prod.fst := by
    rw [Subscriptions.bump, List.map_map]
    exact List.map_congr_left fun e _ => by
      simp only [Function.comp]
      split_ifs <;> rfl
  have hsnd : (s.bump id).entries.map (fun e => e.2.ticket) =
      s.entries.map fun e => e.2.ticket := by
    rw [Subscriptions.bump, List.map_map]
    exact List.map_congr_left fun e _ => by
      simp only [Function.comp]
      split_ifs <;> rfl
  refine ⟨hfst ▸ h.ids, hsnd ▸ h.tickets, ?_⟩
  intro e he
  have hm : e.2.ticket ∈ s.entries.map fun e => e.2.ticket := hsnd ▸ List.mem_map_of_mem he
  obtain ⟨f, hf, hft⟩ := List.mem_map.mp hm
  exact hft ▸ h.bounded f hf

theorem Sound.register (h : s.Sound) (id : Nat) : (s.register id).2.Sound := by
  have hc := h.close id none
  have hn : entry? (s.close id none) id = none := by rw [entry?_close, if_pos rfl]
  rw [register_snd]
  simpa [Sound] using Ticketed.cons hc hn (by simp)

theorem Sound.apply (h : s.Sound) (op : Op) : (s.apply op).Sound := by
  rcases s.apply_cases op with ho | ⟨id, last, ho⟩ | ⟨id, json, e, -, ho⟩ | ⟨id, rfl⟩ | ⟨r, rfl⟩ |
    ⟨t, m, ho, -⟩
  · rw [ho]
    exact h
  · rw [ho]
    exact h.close id last
  · rw [ho]
    simpa [Sound] using h.bump id
  · exact h.register id
  · exact Ticketed.nil
  · rw [ho]
    simpa [Sound, setMailbox] using h

/-! ## A mailbox without an entry -/

theorem mailbox_close_of_loose {t : Nat} (h : s.Loose t) (id : Nat) (last : Option Notice) :
    (s.close id last).mailbox t = s.mailbox t := by
  unfold close
  cases he : s.entry? id with
  | none => rfl
  | some e => exact s.mailbox_finish_of_ne last (h.free _ (mem_of_lookup he)).symm

theorem mailbox_register {t : Nat} (id : Nat) (h : t < s.mailboxes.length) :
    (s.register id).2.mailbox t = (s.close id none).mailbox t := by
  have hc : t < (s.close id none).mailboxes.length := by simpa using h
  rw [register_snd]
  simp only [mailbox, List.getD_eq_getElem?_getD, List.getElem?_append_left hc]

/-- A mailbox without an entry stays as it is once it is detached. -/
theorem mailbox_apply_of_loose {t : Nat} (h : s.Loose t) (hd : (s.mailbox t).attached = false)
    (op : Op) : (s.apply op).mailbox t = s.mailbox t := by
  rcases s.apply_cases op with ho | ⟨id, last, ho⟩ | ⟨id, json, e, he, ho⟩ | ⟨id, rfl⟩ | ⟨r, rfl⟩ |
    ⟨u, m, ho, hu⟩
  · rw [ho]
  · rw [ho, mailbox_close_of_loose h]
  · rw [ho, mailbox_post_of_ne _ _ (h.free _ (mem_of_lookup he)).symm]
    rfl
  · exact (mailbox_register id h.lt).trans (mailbox_close_of_loose h id none)
  · have hn : t ∉ s.entries.map fun e => e.2.ticket := by
      intro hm
      obtain ⟨e, he, het⟩ := List.mem_map.mp hm
      exact h.free e he het
    exact mailbox_foldl_finish_of_notMem (some (.refused r)) hn
  · have hne : t ≠ u := by
      rintro rfl
      rw [hd] at hu
      cases hu
    rw [ho, s.mailbox_setMailbox_of_ne m hne]

theorem Loose.close {t : Nat} (h : s.Loose t) (id : Nat) (last : Option Notice) :
    (s.close id last).Loose t := by
  refine ⟨by simpa using h.lt, ?_⟩
  unfold Subscriptions.close
  cases s.entry? id with
  | none => exact h.free
  | some e =>
    intro f hf
    rw [Option.elim, erase, finish_entries] at hf
    exact h.free f (List.mem_of_mem_filter hf)

theorem Loose.bump {t : Nat} (h : s.Loose t) (id : Nat) : (s.bump id).Loose t := by
  refine ⟨h.lt, ?_⟩
  intro e he
  obtain ⟨f, hf, rfl⟩ := List.mem_map.mp he
  have hne := h.free f hf
  simp only
  split_ifs <;> exact hne

theorem Loose.apply {t : Nat} (h : s.Loose t) (op : Op) : (s.apply op).Loose t := by
  rcases s.apply_cases op with ho | ⟨id, last, ho⟩ | ⟨id, json, e, -, ho⟩ | ⟨id, rfl⟩ | ⟨r, rfl⟩ |
    ⟨u, m, ho, -⟩
  · rw [ho]
    exact h
  · rw [ho]
    exact h.close id last
  · rw [ho]
    exact ⟨by simpa using (h.bump id).lt, by simpa using (h.bump id).free⟩
  · have hc := h.close id none
    have hlt := h.lt
    rw [Subscriptions.apply, register_snd]
    refine ⟨by simp only [List.length_append, close_length]; omega, ?_⟩
    intro e he
    rcases List.mem_cons.mp he with rfl | he
    · exact Nat.ne_of_gt hlt
    · exact hc.free e he
  · refine ⟨?_, by simp [Subscriptions.apply, terminateAll_snd]⟩
    rw [Subscriptions.apply, terminateAll_snd]
    simpa only [foldl_finish_length] using h.lt
  · rw [ho]
    exact ⟨by simpa using h.lt, h.free⟩

theorem entry?_apply_of_none {i : Nat} {op : Op} (h : s.entry? i = none) (hop : op ≠ .register i) :
    entry? (s.apply op) i = none := by
  rcases s.apply_cases op with ho | ⟨id, last, ho⟩ | ⟨id, json, e, -, ho⟩ | ⟨id, rfl⟩ | ⟨r, rfl⟩ |
    ⟨u, m, ho, -⟩
  · rw [ho, h]
  · simp [ho, h]
  · have hb : entry? (s.bump id) i = none := by simp [entry?_bump, h]
    simpa [ho, entry?] using hb
  · have hne : i ≠ id := by
      rintro rfl
      exact hop rfl
    have hc : entry? (s.close id none) i = none := by rw [entry?_close, if_neg hne, h]
    rw [apply, register_snd, entry?, lookup_cons_of_ne _ hne]
    exact hc
  · rfl
  · rw [ho]
    exact h

/-! ## One subscription -/

/-- The subscription `i` is open, its mailbox is listened to and holds these diffs. -/
structure Feeds (s : Subscriptions) (i t : Nat) (js : List Json) : Prop where
  entry : s.entry? i = some ⟨t, js.length⟩
  mailbox : s.mailbox t = ⟨js.map .diff, true, false⟩

/-- The subscription `i` has ended, with these notices in its mailbox. -/
structure Ended (s : Subscriptions) (i t : Nat) (ns : List Notice) : Prop where
  entry : s.entry? i = none
  mailbox : s.mailbox t = ⟨ns, false, false⟩
  loose : s.Loose t

/-- The diff that an operation offers to the subscription `i`. -/
def Op.diff? (i : Nat) : Op → Option Json
  | .deliver id json => if id = i then some json else none
  | _ => none

/-- The notice with which an operation ends the subscription `i` after `k` diffs. -/
def Op.last? (i k : Nat) : Op → Option Notice
  | .reject id message => if id = i ∧ k = 0 then some (.refused message) else none
  | .quit id => if id = i then some .quit else none
  | .terminateAll reason => some (.refused reason)
  | _ => none

theorem feeds_register (s : Subscriptions) (id : Nat) :
    (s.register id).2.Feeds id (s.register id).1 [] := by
  rw [register_fst]
  refine ⟨?_, ?_⟩ <;> rw [register_snd]
  · simp [ entry?]
  · simp [mailbox]

theorem Ended.apply {i t : Nat} {ns : List Notice} (h : s.Ended i t ns) {op : Op}
    (hop : op ≠ .register i) : (s.apply op).Ended i t ns where
  entry := entry?_apply_of_none h.entry hop
  mailbox := (mailbox_apply_of_loose h.loose (by rw [h.mailbox]) op).trans h.mailbox
  loose := h.loose.apply op

section Feeds

variable {i t : Nat} {js : List Json} (hs : s.Sound) (h : s.Feeds i t js)

include hs h

theorem Feeds.ticket_ne {id : Nat} {e : Entry} (he : s.entry? id = some e) (hid : id ≠ i) :
    t ≠ e.ticket := fun ht => hid (Ticketed.id_unique hs he h.entry ht.symm)

theorem Feeds.close_self (last : Option Notice) :
    (s.close i last).Ended i t (js.map .diff ++ last.toList) := by
  have hlt : t < s.mailboxes.length := Ticketed.ticket_lt hs h.entry
  refine ⟨by simp, ?_, by simpa using hlt, ?_⟩
  · simpa [close, h.entry] using s.mailbox_finish_self last hlt h.mailbox
  · intro e he het
    have hsub : (s.close i last).entries = s.entries.filter fun (k, _) => k != i := by
      simp [close, h.entry, erase]
    rw [hsub, List.mem_filter] at he
    have hinj := List.inj_on_of_nodup_map hs.tickets he.1 (mem_of_lookup h.entry) het
    simp [hinj] at he

theorem Feeds.close_of_ne {id : Nat} (hid : id ≠ i) (last : Option Notice) :
    (s.close id last).Feeds i t js := by
  refine ⟨by rw [entry?_close, if_neg hid.symm, h.entry], ?_⟩
  unfold close
  cases he : s.entry? id with
  | none => exact h.mailbox
  | some e => exact (s.mailbox_finish_of_ne last (h.ticket_ne hs he hid)).trans h.mailbox

theorem Feeds.apply_of_diff {op : Op} {j : Json} (hj : op.diff? i = some j) :
    (s.apply op).Feeds i t (js ++ [j]) := by
  cases op with
  | deliver id json =>
    obtain ⟨rfl, rfl⟩ : id = i ∧ json = j := by simpa [Op.diff?] using hj
    have hlt : t < s.mailboxes.length := Ticketed.ticket_lt hs h.entry
    have hb : entry? (s.bump id) id = some ⟨t, js.length + 1⟩ := by simp [entry?_bump, h.entry]
    have hm : (s.bump id).mailbox t = ⟨js.map .diff, true, false⟩ := h.mailbox
    rw [apply, deliver_snd, h.entry, Option.elim, h.mailbox, if_neg Bool.false_ne_true]
    refine ⟨?_, ?_⟩
    · simpa [ entry?] using hb
    · have hp := (s.bump id).mailbox_post_self (.diff json) hlt hm rfl
      simpa using hp
  | _ => cases hj

theorem Feeds.apply_of_last {op : Op} {x : Notice} (hx : op.last? i js.length = some x) :
    (s.apply op).Ended i t (js.map .diff ++ [x]) := by
  cases op with
  | reject id message =>
    obtain ⟨⟨rfl, hk⟩, rfl⟩ : (id = i ∧ js.length = 0) ∧ .refused message = x := by
      simpa [Op.last?] using hx
    rw [apply, reject_snd, if_pos (by simp [h.entry, hk])]
    exact h.close_self hs (some _)
  | quit id =>
    obtain ⟨rfl, rfl⟩ : id = i ∧ .quit = x := by simpa [Op.last?] using hx
    rw [apply, quit, terminate_snd]
    exact h.close_self hs (some _)
  | terminateAll reason =>
    obtain rfl : .refused reason = x := by simpa [Op.last?] using hx
    have hlt : t < s.mailboxes.length := Ticketed.ticket_lt hs h.entry
    have ht : t ∈ s.entries.map fun e => e.2.ticket := List.mem_map_of_mem (mem_of_lookup h.entry)
    refine ⟨rfl, ?_, ?_, by simp [apply, terminateAll_snd]⟩
    · exact mailbox_foldl_finish_of_mem (some _) hs.tickets ht hlt h.mailbox
    · rw [apply, terminateAll_snd]
      simpa only [foldl_finish_length] using hlt
  | _ => cases hx

theorem Feeds.apply_of_stay {op : Op} (hj : op.diff? i = none) (hx : op.last? i js.length = none)
    (hr : op ≠ .register i) (hm : op ≠ .remove i) (ha : op ≠ .abandon t) :
    (s.apply op).Feeds i t js := by
  cases op with
  | register id =>
    have hid : id ≠ i := fun hid => hr (hid ▸ rfl)
    have hc := h.close_of_ne hs hid none
    refine ⟨?_, ?_⟩
    · rw [apply, register_snd, entry?, lookup_cons_of_ne _ hid.symm]
      exact hc.entry
    · exact (mailbox_register id (Ticketed.ticket_lt hs h.entry)).trans hc.mailbox
  | deliver id json =>
    have hid : id ≠ i := by simpa [Op.diff?] using hj
    rw [apply, deliver_snd]
    cases he : s.entry? id with
    | none => exact h
    | some e =>
      simp only [Option.elim]
      split_ifs
      · exact h.close_of_ne hs hid none
      · have hb : entry? (s.bump id) i = some ⟨t, js.length⟩ := by
          rw [entry?_bump, if_neg hid.symm, h.entry]
        refine ⟨by simpa [ entry?] using hb, ?_⟩
        exact ((s.bump id).mailbox_post_of_ne _ (h.ticket_ne hs he hid)).trans h.mailbox
  | reject id message =>
    rw [apply, reject_snd]
    split_ifs with hd
    · refine h.close_of_ne hs ?_ _
      rintro rfl
      have hk : js.length ≠ 0 := by simpa [Op.last?] using hx
      simp [h.entry] at hd
      exact hk (by simp [hd])
    · exact h
  | quit id =>
    have hid : id ≠ i := by simpa [Op.last?] using hx
    rw [apply, quit, terminate_snd]
    exact h.close_of_ne hs hid _
  | remove id =>
    have hid : id ≠ i := fun hid => hm (hid ▸ rfl)
    rw [apply, remove_snd]
    exact h.close_of_ne hs hid _
  | terminateAll reason => cases hx
  | abandon u =>
    have hu : t ≠ u := fun hu => ha (hu ▸ rfl)
    simp only [apply, abandon]
    split_ifs
    · exact h
    · exact ⟨h.entry, (s.mailbox_setMailbox_of_ne _ hu).trans h.mailbox⟩

end Feeds

end Subscriptions

end ShipBridge.Session
