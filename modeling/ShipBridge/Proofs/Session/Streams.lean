import Mathlib.Data.List.Induction
import ShipBridge.Proofs.Session.Changes

/-!
# What subscriptions yield

A subscription that has been entered takes in the diffs for it, in order, until it is ended: by
the ship, which quits it or refuses it before its first diff, or by the end of the session. The
change that ends it adds one last notice. As long as nothing ends it the subscription keeps its
entry, and after that nothing is delivered to it any more.
-/

namespace ShipBridge

open Wire

namespace Session

/-- The diff that a change brings to the subscription `id`. -/
def Change.diff? (id : Nat) : Change → Option Json
  | .dispatch (.diff i json) => if i = id then some json else none
  | _ => none

/-- The notice with which a change ends the subscription `id` after `k` diffs. A refusal ends it
only if there have been none. -/
def Change.last? (id k : Nat) : Change → Option Notice
  | .dispatch (.quit i) => if i = id then some .quit else none
  | .dispatch (.subscribe i _ (some err)) =>
    if i = id ∧ k = 0 then some (.refused (refusalText err)) else none
  | .tearDown reason => some (.refused reason)
  | _ => none

def diffs (id : Nat) (cs : List Change) : List Json := cs.filterMap (Change.diff? id)

/-- None of these changes ends the subscription `id`. -/
def Lasting (id : Nat) (cs : List Change) : Prop :=
  ∀ p c q, cs = p ++ c :: q → c.last? id (diffs id p).length = none

variable {n : Nat} {s : Session} {t : Subscriptions} {id ticket : Nat}

theorem diff?_eq (c : Change) :
    c.diff? id = c.subscriptionOp?.bind (Subscriptions.Op.diff? id) := by
  cases c with
  | dispatch f =>
    cases f with
    | subscribe i ok err => cases err <;> rfl
    | _ => rfl
  | enter i r => cases r <;> rfl
  | withdraw x => cases x <;> rfl
  | _ => rfl

theorem last?_eq (c : Change) (k : Nat) :
    c.last? id k = c.subscriptionOp?.bind (Subscriptions.Op.last? id k) := by
  cases c with
  | dispatch f =>
    cases f with
    | subscribe i ok err => cases err <;> rfl
    | _ => rfl
  | enter i r => cases r <;> rfl
  | withdraw x => cases x <;> rfl
  | _ => rfl

theorem diffs_concat (cs : List Change) (c : Change) :
    diffs id (cs ++ [c]) = diffs id cs ++ (c.diff? id).toList := by
  cases h : c.diff? id <;> simp [diffs, h]

theorem lasting_nil : Lasting id [] := by
  intro p c q h
  simp at h

theorem lasting_concat {cs : List Change} {c : Change} :
    Lasting id (cs ++ [c]) ↔ Lasting id cs ∧ c.last? id (diffs id cs).length = none := by
  constructor
  · intro h
    refine ⟨?_, h cs c [] rfl⟩
    intro p d q hcs
    exact h p d (q ++ [c]) (by simp [hcs])
  · rintro ⟨h, hc⟩ p d q hcs
    rcases List.eq_nil_or_concat q with rfl | ⟨q, e, rfl⟩
    · obtain ⟨rfl, hd⟩ := List.append_inj' hcs rfl
      rw [← (List.cons.inj hd).1]
      exact hc
    · rw [List.concat_eq_append, ← List.cons_append, ← List.append_assoc] at hcs
      exact h p d q (List.append_inj' hcs rfl).1

/-- Either no change ends the subscription, or there is a first one that does. -/
theorem lasting_or_ends (id : Nat) (cs : List Change) : Lasting id cs ∨
    ∃ p c q x, cs = p ++ c :: q ∧ Lasting id p ∧ c.last? id (diffs id p).length = some x := by
  induction cs using List.reverseRecOn with
  | nil => exact .inl lasting_nil
  | append_singleton cs c ih =>
    rcases ih with ih | ⟨p, d, q, x, rfl, hp, hx⟩
    · cases hc : c.last? id (diffs id cs).length with
      | none => exact .inl (lasting_concat.mpr ⟨ih, hc⟩)
      | some x => exact .inr ⟨cs, c, [], x, rfl, ih, hc⟩
    · exact .inr ⟨p, d, q ++ [c], x, by simp, hp, hx⟩

/-! ## One change -/

theorem register_of_subscriptionOp? {c : Change} (h : c.subscriptionOp? = some (.register id)) :
    ∃ r, c = .enter id r := by
  revert h
  fun_cases Change.subscriptionOp? c <;> simp

theorem remove_of_subscriptionOp? {c : Change} (h : c.subscriptionOp? = some (.remove id)) :
    ∃ x, c = .withdraw x ∧ x.id? = some id := by
  revert h
  fun_cases Change.subscriptionOp? c <;> simp [Command.id?]

theorem abandon_of_subscriptionOp? {c : Change}
    (h : c.subscriptionOp? = some (.abandon ticket)) : c = .dropSubscription ticket := by
  revert h
  fun_cases Change.subscriptionOp? c <;> simp

theorem Subscriptions.Ended.change {ns : List Notice} (h : t.Ended id ticket ns) {c : Change}
    (hc : ∀ r, c ≠ .enter id r) : (c.onSubscriptions t).Ended id ticket ns := by
  unfold Change.onSubscriptions
  cases ho : c.subscriptionOp? with
  | none => exact h
  | some op =>
    refine h.apply ?_
    rintro rfl
    obtain ⟨r, hr⟩ := register_of_subscriptionOp? ho
    exact hc r hr

theorem Subscriptions.Feeds.change_of_last {js : List Json} (hs : t.Sound)
    (h : t.Feeds id ticket js) {c : Change} {x : Notice} (hx : c.last? id js.length = some x) :
    (c.onSubscriptions t).Ended id ticket (js.map .diff ++ [x]) := by
  rw [last?_eq] at hx
  obtain ⟨op, ho, hop⟩ := Option.bind_eq_some_iff.mp hx
  rw [Change.onSubscriptions, ho]
  exact h.apply_of_last hs hop

theorem Subscriptions.Feeds.change_of_none {js : List Json} (hs : t.Sound)
    (h : t.Feeds id ticket js) {c : Change} (hx : c.last? id js.length = none)
    (hu : Undisturbed id [c]) (hd : c ≠ .dropSubscription ticket) :
    (c.onSubscriptions t).Feeds id ticket (js ++ (c.diff? id).toList) := by
  rw [last?_eq] at hx
  rw [diff?_eq]
  unfold Change.onSubscriptions
  cases ho : c.subscriptionOp? with
  | none => simpa using h
  | some op =>
    have hop : op.last? id js.length = none := by simpa [ho] using hx
    simp only [Option.elim, Option.bind]
    cases hj : op.diff? id with
    | some j => exact h.apply_of_diff hs hj
    | none =>
      rw [Option.toList, List.append_nil]
      refine h.apply_of_stay hs hj hop ?_ ?_ ?_
      · rintro rfl
        obtain ⟨r, rfl⟩ := register_of_subscriptionOp? ho
        exact hu.entered r (List.mem_singleton_self _)
      · rintro rfl
        obtain ⟨x, rfl, hid⟩ := remove_of_subscriptionOp? ho
        exact hu.withdrawn x hid (List.mem_singleton_self _)
      · rintro rfl
        exact hd (abandon_of_subscriptionOp? ho)

/-! ## A run of changes -/

theorem Subscriptions.Sound.changes (h : t.Sound) (cs : List Change) :
    (cs.foldl (fun t c => c.onSubscriptions t) t).Sound := by
  induction cs generalizing t with
  | nil => exact h
  | cons c cs ih => exact ih (h.change c)

theorem Subscriptions.Ended.changes {ns : List Notice} (h : t.Ended id ticket ns)
    {cs : List Change} (hc : ∀ r, .enter id r ∉ cs) :
    (cs.foldl (fun t c => c.onSubscriptions t) t).Ended id ticket ns := by
  induction cs generalizing t with
  | nil => exact h
  | cons c cs ih =>
    refine ih (h.change ?_) fun r hr => hc r (List.mem_cons_of_mem c hr)
    rintro r rfl
    exact hc r List.mem_cons_self

/-- As long as nothing ends it, a subscription takes in all the diffs for it. -/
theorem Subscriptions.Feeds.changes (hs : t.Sound) (h : t.Feeds id ticket []) {cs : List Change}
    (hl : Lasting id cs) (hu : Undisturbed id cs) (hd : .dropSubscription ticket ∉ cs) :
    (cs.foldl (fun t c => c.onSubscriptions t) t).Feeds id ticket (diffs id cs) := by
  induction cs using List.reverseRecOn with
  | nil => exact h
  | append_singleton cs c ih =>
    obtain ⟨hl, hc⟩ := lasting_concat.mp hl
    rw [List.mem_append, not_or] at hd
    have hfeeds := ih hl (hu.sublist (List.sublist_append_left cs [c])) hd.1
    rw [List.foldl_concat, diffs_concat]
    refine hfeeds.change_of_none (hs.changes cs) hc (hu.sublist (List.sublist_append_right cs [c]))
      ?_
    rintro rfl
    exact hd.2 (List.mem_singleton_self _)

/-! ## A whole run -/

theorem feeds_call {u : Session} {owner : Nat} {r : Request}
    (h : s.call? owner r = some (.subscription id ticket, u)) :
    id = s.state.nextId ∧ u.state.subscriptions.Feeds id ticket [] := by
  have hc := (call?_eq_some (n := 0) h).2.1
  cases r <;> simp only [call?, State.register?, hc, State.allocate, Bool.false_eq_true, if_false,
    Option.some.injEq, Prod.mk.injEq, Receipt.subscription.injEq, reduceCtorEq, false_and] at h
  obtain ⟨⟨rfl, rfl⟩, rfl⟩ := h
  exact ⟨rfl, Subscriptions.feeds_register _ _⟩

theorem dropSubscription_notMem {as : List Action} (h : .dropSubscription ticket ∉ as) :
    .dropSubscription ticket ∉ changes n s as := by
  refine fun hm => h (mem_of_mem_changes (fun t b hb => ?_) hm)
  cases b <;> simp_all [change?]

/-- A subscription that was sent yields the diffs that came for it since its registration, even
those that came before the batch had been delivered. As long as nothing has ended it, it keeps its
entry; the first change that ends it adds the last notice, and nothing follows. -/
theorem subscription_stream (n : Nat) (before after rest : List Action) (owner : Nat) (r : Request)
    {id ticket : Nat} {s : Session}
    (hcall : (run n {} before).call? owner r = some (.subscription id ticket, s))
    (hreturn : ∃ m ∈ trail n s (after ++ rest), isReturn id m)
    (hkept : .dropSubscription ticket ∉ after) :
    let cs := changes n s after
    let t := (run n s after).state.subscriptions
    (Lasting id cs ∧ t.mailbox ticket = ⟨(diffs id cs).map .diff, true, false⟩ ∧
        t.entry? id = some ⟨ticket, (diffs id cs).length⟩) ∨
      ∃ p c q x, cs = p ++ c :: q ∧ Lasting id p ∧ c.last? id (diffs id p).length = some x ∧
        ∀ more, let u := (run n s (after ++ more)).state.subscriptions
          u.mailbox ticket = ⟨(diffs id p).map .diff ++ [x], false, false⟩ ∧
            u.entry? id = none := by
  obtain ⟨hid, hfeeds⟩ := feeds_call hcall
  obtain ⟨hsound, hlt, hu⟩ := undisturbed_of_call hcall hid hreturn
  have hd := dropSubscription_notMem (n := n) (s := s) hkept
  rcases lasting_or_ends id (changes n s after) with hl | ⟨p, c, q, x, hcs, hl, hx⟩
  · have h := hfeeds.changes hsound.subscriptions hl hu hd
    rw [← run_subscriptions] at h
    exact .inl ⟨hl, h.mailbox, h.entry⟩
  · refine .inr ⟨p, c, q, x, hcs, hl, hx, ?_⟩
    intro more
    have hp : p.Sublist (changes n s after) := hcs ▸ List.sublist_append_left p (c :: q)
    have hopen := hfeeds.changes hsound.subscriptions hl (hu.sublist hp) fun hm =>
      hd (hp.subset hm)
    have h := hopen.change_of_last (hsound.subscriptions.changes p) hx
    have hmore : changes n s (after ++ more) =
        p ++ c :: (q ++ changes n (run n s after) more) := by
      rw [changes_append, hcs, List.append_assoc, List.cons_append]
    have hrest (r : Request) : .enter id r ∉ q ++ changes n (run n s after) more := by
      intro hm
      refine enter_notMem_of_lt (n := n) hlt r (after ++ more) ?_
      rw [hmore]
      exact List.mem_append_right p (List.mem_cons_of_mem c hm)
    have hend := h.changes hrest
    rw [← List.foldl_cons, ← List.foldl_append, ← hmore, ← run_subscriptions] at hend
    exact ⟨hend.mailbox, hend.entry⟩

theorem subscription_stream_quit :
    let diff : EventStream.Event :=
      { id := some "1", data := "\x7b\"id\":1,\"response\":\"diff\",\"json\":true\x7d" }
    let quit : EventStream.Event :=
      { id := some "2", data := "\x7b\"id\":1,\"response\":\"quit\"\x7d" }
    let r : Request := .subscribe "zod" "graph-store" "/updates"
    let s := ({} : Session).act 3 (.call 0 r)
    let after : List Action :=
      [.connect, .awaken, .opened, .proceed, .receive diff, .settle (.ok ()), .receive quit]
    (run 3 {} []).call? 0 r = some (.subscription 1 0, s) ∧
      (∃ m ∈ trail 3 s (after ++ []), isReturn 1 m) ∧ .dropSubscription 0 ∉ after ∧
      ∀ more, (run 3 s (after ++ more)).state.subscriptions.mailbox 0 =
        ⟨[.diff (.bool true), .quit], false, false⟩ := by
  intro diff quit r s after
  have hcall : (run 3 {} []).call? 0 r = some (.subscription 1 0, s) := rfl
  have hreturn : ∃ m ∈ trail 3 s (after ++ []), isReturn 1 m :=
    ⟨_, List.mem_of_getElem? (i := 5) rfl, _, rfl, rfl⟩
  have hkept : .dropSubscription 0 ∉ after := by simp [after]
  have hcs : changes 3 s after = [.dispatch (.diff 1 (.bool true)), .dispatch (.quit 1)] := by
    decide +kernel
  refine ⟨hcall, hreturn, hkept, ?_⟩
  rcases subscription_stream 3 [] after [] 0 r hcall hreturn hkept with ⟨hl, -⟩ |
    ⟨p, c, q, x, hsplit, -, hx, hm⟩
  · rw [hcs] at hl
    cases hl [.dispatch (.diff 1 (.bool true))] (.dispatch (.quit 1)) [] rfl
  · rw [hcs] at hsplit
    match p with
    | [] =>
      obtain ⟨rfl, -⟩ := List.cons.inj hsplit
      cases hx
    | [d] =>
      obtain ⟨rfl, hq⟩ := List.cons.inj hsplit
      obtain ⟨rfl, -⟩ := List.cons.inj hq
      obtain rfl := Option.some.inj hx
      exact fun more => (hm more).1
    | _ :: _ :: p => simp at hsplit

end Session

end ShipBridge
