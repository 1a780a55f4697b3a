import ShipBridge.Proofs.Session.Changes
import ShipBridge.Proofs.Session.Tabular

/-!
# Frames and their addressees

A frame is addressed to one poke or to one subscription. What it does is told from the entry under
that id and from what the entry's ticket has brought so far, and it changes nothing else in the
tables. So frames for different addressees may be dispatched in either order, and of a list of
frames only the order of those for the same addressee matters.
-/

namespace ShipBridge

namespace Wire

inductive Addressee where
  | poke (id : Nat)
  | subscription (id : Nat)
deriving DecidableEq, Repr

def Frame.addressee : Frame → Addressee
  | .poke id .. => .poke id
  | .subscribe id .. | .diff id _ | .quit id => .subscription id

end Wire

open Wire

namespace Session

/-! ## Steps that commute unless they have the same key -/

section Reorder

variable {σ α κ : Type} {key : α → κ} {step : σ → α → σ} {P : σ → Prop}
  (hkeep : ∀ s a, P s → P (step s a))
  (hcomm : ∀ s a b, P s → key a ≠ key b → step (step s a) b = step (step s b) a)

include hkeep hcomm

theorem foldl_front {x : α} {ls : List α} (h : ∀ y ∈ ls, key y ≠ key x) (rs : List α) {s : σ}
    (hs : P s) : (ls ++ x :: rs).foldl step s = (x :: (ls ++ rs)).foldl step s := by
  induction ls generalizing s with
  | nil => rfl
  | cons y ls ih =>
    have hyx := hcomm s y x hs (h y List.mem_cons_self)
    have hrest := ih (fun z hz => h z (List.mem_cons_of_mem y hz)) (hkeep s y hs)
    rw [List.cons_append, List.foldl_cons, hrest, List.foldl_cons, hyx]
    rfl

/-- Lists that agree in the order of the steps with each key lead to the same end. -/
theorem foldl_reorder [DecidableEq κ] {xs ys : List α}
    (h : ∀ k, xs.filter (fun a => key a = k) = ys.filter (fun a => key a = k)) {s : σ}
    (hs : P s) : xs.foldl step s = ys.foldl step s := by
  induction xs generalizing ys s with
  | nil =>
    have hnone : ys = [] := by
      refine List.eq_nil_iff_forall_not_mem.mpr fun y hy => ?_
      have hmem : y ∈ ys.filter fun a => key a = key y := List.mem_filter.mpr ⟨hy, by simp⟩
      rw [← h (key y)] at hmem
      cases hmem
    rw [hnone]
  | cons x xs ih =>
    have hx : ys.filter (fun a => key a = key x) = x :: xs.filter fun a => key a = key x := by
      rw [← h (key x), List.filter_cons_of_pos (by simp)]
    obtain ⟨ls, rs, rfl, hls, -, hrs⟩ := List.filter_eq_cons_iff.mp hx
    have hother : ∀ y ∈ ls, key y ≠ key x := fun y hy => by simpa using hls y hy
    rw [foldl_front hkeep hcomm hother rs hs, List.foldl_cons, List.foldl_cons]
    refine ih (fun k => ?_) (hkeep s x hs)
    by_cases hk : key x = k
    · subst hk
      have hnil : ls.filter (fun a => key a = key x) = [] :=
        List.filter_eq_nil_iff.mpr hls
      rw [List.filter_append, hnil, hrs, List.nil_append]
    · have hall := h k
      rw [List.filter_cons_of_neg (by simpa using hk), List.filter_append,
        List.filter_cons_of_neg (by simpa using hk)] at hall
      rw [hall, List.filter_append]

end Reorder

/-! ## Dispatching a frame -/

theorem dispatch_poke {f : Frame} {id : Nat} (h : f.addressee = .poke id) :
    ∃ g, ∀ s : State,
      (s.dispatch f).pokes.table = s.pokes.table.amend (fun t => t) .discarded g id ∧
      (s.dispatch f).subscriptions = s.subscriptions := by
  cases f with
  | poke i ok err =>
    obtain rfl := Addressee.poke.inj h
    let a := State.pokeAnswer i ok err
    exact ⟨Pokes.takeOut (.answered a), fun s => ⟨s.pokes.table_apply (.resolve i a), rfl⟩⟩
  | _ => cases h

theorem dispatch_subscription {f : Frame} {id : Nat} (h : f.addressee = .subscription id) :
    ∃ g, ∀ s : State, (s.dispatch f).subscriptions.table = s.subscriptions.amended g id ∧
      (s.dispatch f).pokes = s.pokes := by
  cases f with
  | poke i ok err => cases h
  | subscribe i ok err =>
    obtain rfl := Addressee.subscription.inj h
    cases err with
    | none => exact ⟨_, fun s => ⟨(Subscriptions.amended_same i).symm, rfl⟩⟩
    | some err => exact ⟨_, fun s => ⟨Subscriptions.table_reject i (refusalText err), rfl⟩⟩
  | diff i json =>
    obtain rfl := Addressee.subscription.inj h
    exact ⟨_, fun s => ⟨Subscriptions.table_deliver i json, rfl⟩⟩
  | quit i =>
    obtain rfl := Addressee.subscription.inj h
    exact ⟨Subscriptions.ending .quit, fun s => ⟨Subscriptions.table_apply (.quit i), rfl⟩⟩

theorem dispatch_sound {s : State} (h : s.Sound) (f : Frame) : (s.dispatch f).Sound := by
  obtain ⟨hp, hs⟩ := Prod.mk.inj (State.dispatch_tables s f)
  exact ⟨hp ▸ (h.change (.dispatch f)).pokes, hs ▸ (h.change (.dispatch f)).subscriptions⟩

theorem dispatch_comm {s : State} (h : s.Sound) {f g : Frame} (hfg : f.addressee ≠ g.addressee) :
    (s.dispatch f).dispatch g = (s.dispatch g).dispatch f := by
  have key (hp : ((s.dispatch f).dispatch g).pokes = ((s.dispatch g).dispatch f).pokes)
      (hs : ((s.dispatch f).dispatch g).subscriptions =
        ((s.dispatch g).dispatch f).subscriptions) :
      (s.dispatch f).dispatch g = (s.dispatch g).dispatch f := by
    rw [State.dispatch_eq (s.dispatch f), hp, hs, State.dispatch_eq s f,
      State.dispatch_eq (s.dispatch g), State.dispatch_eq s g]
  cases hf : f.addressee with
  | poke i =>
    obtain ⟨x, hx⟩ := dispatch_poke hf
    cases hg : g.addressee with
    | poke j =>
      obtain ⟨y, hy⟩ := dispatch_poke hg
      have hij : i ≠ j := fun hij => hfg (by rw [hf, hg, hij])
      refine key (Pokes.table_inj ?_) ?_
      · rw [(hy _).1, (hx _).1, (hx _).1, (hy _).1]
        exact Table.amend_comm _ _ h.pokes hij
      · rw [(hy _).2, (hx _).2, (hx _).2, (hy _).2]
    | subscription j =>
      obtain ⟨y, hy⟩ := dispatch_subscription hg
      refine key (Pokes.table_inj ?_) (Subscriptions.table_inj ?_)
      · rw [(hy _).2, (hx _).1, (hx _).1, (hy _).2]
      · rw [(hy _).1, (hx _).2, (hx _).2, (hy _).1]
  | subscription i =>
    obtain ⟨x, hx⟩ := dispatch_subscription hf
    cases hg : g.addressee with
    | poke j =>
      obtain ⟨y, hy⟩ := dispatch_poke hg
      refine key (Pokes.table_inj ?_) (Subscriptions.table_inj ?_)
      · rw [(hy _).1, (hx _).2, (hx _).2, (hy _).1]
      · rw [(hy _).2, (hx _).1, (hx _).1, (hy _).2]
    | subscription j =>
      obtain ⟨y, hy⟩ := dispatch_subscription hg
      have hij : i ≠ j := fun hij => hfg (by rw [hf, hg, hij])
      refine key ?_ (Subscriptions.table_inj ?_)
      · rw [(hy _).2, (hx _).2, (hx _).2, (hy _).2]
      · rw [(hy _).1, (hx _).1, Subscriptions.amended, Subscriptions.amended, (hx _).1, (hy _).1]
        exact Table.amend_comm _ _ h.subscriptions hij

/-! ## What a frame leaves alone -/

/-- Nothing has changed but the count of the events received and what belongs to the addressee: its
entry, and the slot or the mailbox of that entry's ticket. -/
inductive State.ChangedAt (s : State) : Addressee → State → Prop
  | poke (any : Bool) (n : Nat) {id : Nat} {p : Pokes}
    (h : Table.Beside (fun t => t) id s.pokes.table p.table) :
    ChangedAt s (.poke id) { s with receivedAny := any, received := n, pokes := p }
  | subscription (any : Bool) (n : Nat) {id : Nat} {t : Subscriptions}
    (h : Table.Beside Entry.ticket id s.subscriptions.table t.table) :
    ChangedAt s (.subscription id) { s with receivedAny := any, received := n, subscriptions := t }

theorem changedAt_dispatch (s : State) (any : Bool) (n : Nat) (f : Frame) :
    s.ChangedAt f.addressee (State.dispatch { s with receivedAny := any, received := n } f) := by
  rw [State.dispatch_eq]
  cases hf : f.addressee with
  | poke id =>
    obtain ⟨x, hx⟩ := dispatch_poke hf
    rw [(hx _).2]
    refine .poke any n ?_
    rw [(hx _).1]
    exact Table.beside_amend _ id s.pokes.table
  | subscription id =>
    obtain ⟨x, hx⟩ := dispatch_subscription hf
    rw [(hx _).2]
    refine .subscription any n ?_
    rw [(hx _).1]
    exact Table.beside_amend _ id s.subscriptions.table

theorem State.ChangedAt.refl (s : State) (a : Addressee) : s.ChangedAt a s := by
  cases a with
  | poke id => exact .poke s.receivedAny s.received (.refl id s.pokes.table)
  | subscription id =>
    exact .subscription s.receivedAny s.received (.refl id s.subscriptions.table)

/-- An event is passed over as a replay, or its data is accepted once it has been counted. -/
theorem State.handle_cases (s : State) (e : EventStream.Event) : s.handle e = s ∨
    ∃ any n, s.handle e = State.accept { s with receivedAny := any, received := n } e.data := by
  unfold State.handle State.note?
  cases e.number? with
  | none => exact .inr ⟨s.receivedAny, s.received, rfl⟩
  | some k =>
    by_cases h : s.receivedAny = true ∧ k ≤ s.received
    · exact .inl (by simp [h])
    · exact .inr ⟨true, k, by simp [h]⟩

theorem State.handle_of_no_frame (s : State) {e : EventStream.Event}
    (h : (Frame.decode e.data.toList).toOption = none) : s.handle e =
      { s with receivedAny := (s.handle e).receivedAny, received := (s.handle e).received } := by
  rcases s.handle_cases e with he | ⟨any, n, he⟩
  · rw [he]
  · rw [he, State.accept_eq, h]
    rfl

theorem changedAt_handle (s : State) {e : EventStream.Event} {f : Frame}
    (h : (Frame.decode e.data.toList).toOption = some f) :
    s.ChangedAt f.addressee (s.handle e) := by
  rcases s.handle_cases e with he | ⟨any, n, he⟩
  · rw [he]
    exact .refl s _
  · rw [he, State.accept_eq, h]
    exact changedAt_dispatch s any n f

/-- An event whose data is no frame moves the count of the events received and nothing else. A frame
moves it too, and beyond that it changes only what belongs to its addressee. Frames for different
addressees may be dispatched in either order, and of a list of frames only the order of those for
the same addressee matters. -/
theorem frames_are_local (s : State) (hs : s.Sound) :
    (∀ e : EventStream.Event, (Frame.decode e.data.toList).toOption = none →
      s.handle e = { s with
        receivedAny := (s.handle e).receivedAny, received := (s.handle e).received }) ∧
    (∀ (e : EventStream.Event) f, (Frame.decode e.data.toList).toOption = some f →
      s.ChangedAt f.addressee (s.handle e)) ∧
    (∀ f g : Frame, f.addressee ≠ g.addressee →
      (s.dispatch f).dispatch g = (s.dispatch g).dispatch f) ∧
    ∀ fs gs : List Frame,
      (∀ a, fs.filter (fun f => f.addressee = a) = gs.filter fun f => f.addressee = a) →
      fs.foldl State.dispatch s = gs.foldl State.dispatch s := by
  refine ⟨fun e => s.handle_of_no_frame, fun e f => changedAt_handle s,
    fun f g => dispatch_comm hs, fun fs gs h => ?_⟩
  have hkeep (t : State) (f : Frame) (ht : t.Sound) : (t.dispatch f).Sound := dispatch_sound ht f
  exact foldl_reorder hkeep (fun t f g ht hfg => dispatch_comm ht hfg) h hs

/-- Of two subscriptions with diffs one has lost its holder, and a poke is answered in between. -/
theorem frames_are_local_when_dropped :
    let s := (run 1 {} [.call 0 (.poke "zod" "hood" "atom" .null),
      .call 1 (.subscribe "zod" "a" "/"), .call 2 (.subscribe "zod" "b" "/"),
      .dropSubscription 0]).state
    let fs : List Frame := [.diff 2 .null, .poke 1 (some .null) none, .diff 3 .null, .quit 2]
    let gs : List Frame := [.poke 1 (some .null) none, .diff 3 .null, .diff 2 .null, .quit 2]
    let e : EventStream.Event := { id := "4", data := "?" }
    s.Sound ∧ (s.subscriptions.mailbox 0).abandoned = true ∧
      (Frame.decode e.data.toList).toOption = none ∧
      s.handle e = { s with
        receivedAny := (s.handle e).receivedAny, received := (s.handle e).received } ∧
      (∀ a, fs.filter (fun f => f.addressee = a) = gs.filter fun f => f.addressee = a) ∧
      fs.foldl State.dispatch s = gs.foldl State.dispatch s := by
  intro s fs gs e
  have hs : s.Sound := sound_run sound_initial
  have hnone : (Frame.decode e.data.toList).toOption = none := by decide +kernel
  have hfg (a : Addressee) :
      fs.filter (fun f => f.addressee = a) = gs.filter fun f => f.addressee = a := by
    by_cases h₁ : Addressee.poke 1 = a
    · subst h₁
      rfl
    · by_cases h₂ : Addressee.subscription 2 = a
      · subst h₂
        rfl
      · simp only [fs, gs, List.filter_cons, List.filter_nil]
        simp [Frame.addressee, h₁, h₂]
  obtain ⟨hcount, -, -, hlists⟩ := frames_are_local s hs
  exact ⟨hs, rfl, hnone, hcount e hnone, hfg, hlists fs gs hfg⟩

end Session
end ShipBridge
