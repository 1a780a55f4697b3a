import ShipBridge.Proofs.Session.Changes

/-!
# The outcomes of pokes

A poke that has been entered waits under its id until the ship answers it, it is forgotten or the
session ends. Whichever comes first decides its outcome, and nothing that comes later changes it.
It makes no difference whether the batch with the poke has been delivered by then, as long as it
is delivered at some time.
-/

namespace ShipBridge

open Wire

namespace Session

/-- What a change decides about the poke `id`: the ship's answer, or an end without one. -/
def Change.verdict? (id : Nat) : Change → Option Answer
  | .dispatch (.poke i ok err) =>
    if i = id then some (match ok, err with
      | some _, _ => .ok ()
      | none, some err => .error (.pokeFailed id (refusalText err))
      | none, none => .error (.invalidResponse id))
    else none
  | .forget i => if i = id then some (.error .closed) else none
  | .tearDown _ => some (.error .closed)
  | _ => none

variable {n : Nat} {s : Session} {p : Pokes} {id ticket : Nat}

theorem pokeAnswer_eq (ok err : Option Json) : State.pokeAnswer id ok err = match ok, err with
    | some _, _ => .ok ()
    | none, some err => .error (.pokeFailed id (refusalText err))
    | none, none => .error (.invalidResponse id) := by
  cases ok <;> cases err <;> rfl

theorem verdict?_eq {c : Change} (h : ∀ x, c = .withdraw x → x.id? ≠ some id) :
    c.verdict? id = c.pokeOp?.bind (Pokes.Op.verdict? id) := by
  cases c with
  | withdraw x =>
    cases x with
    | poke i ship app mark json =>
      have hid : i ≠ id := fun hid => h _ rfl (congrArg some hid)
      simp [Change.verdict?, Change.pokeOp?, Pokes.Op.verdict?, hid]
    | _ => rfl
  | dispatch f =>
    cases f with
    | poke i ok err =>
      by_cases hi : i = id
      · simp [Change.verdict?, Change.pokeOp?, Pokes.Op.verdict?, hi, pokeAnswer_eq]
      · simp [Change.verdict?, Change.pokeOp?, Pokes.Op.verdict?, hi]
    | _ => rfl
  | enter i r => cases r <;> rfl
  | _ => rfl

theorem register_of_pokeOp? {c : Change} (h : c.pokeOp? = some (.register id)) :
    ∃ r, c = .enter id r := by
  revert h
  fun_cases Change.pokeOp? c <;> simp

theorem abandon_of_pokeOp? {c : Change} (h : c.pokeOp? = some (.abandon ticket)) :
    c = .dropPoke ticket := by
  revert h
  fun_cases Change.pokeOp? c <;> simp

/-! ## One change -/

theorem Pokes.Decided.change {v : Answer} (h : p.Decided id ticket v) {c : Change}
    (hc : ∀ r, c ≠ .enter id r) : (c.onPokes p).Decided id ticket v := by
  unfold Change.onPokes
  cases ho : c.pokeOp? with
  | none => exact h
  | some op =>
    refine h.apply ?_
    rintro rfl
    obtain ⟨r, hr⟩ := register_of_pokeOp? ho
    exact hc r hr

theorem Pokes.Awaits.change_of_verdict (hs : p.Sound) (h : p.Awaits id ticket) {c : Change}
    (hw : ∀ x, c = .withdraw x → x.id? ≠ some id) {v : Answer} (hv : c.verdict? id = some v) :
    (c.onPokes p).Decided id ticket v := by
  rw [verdict?_eq hw] at hv
  obtain ⟨op, ho, hop⟩ := Option.bind_eq_some_iff.mp hv
  rw [Change.onPokes, ho]
  exact h.apply_of_verdict hs hop

theorem Pokes.Awaits.change_of_none (hs : p.Sound) (h : p.Awaits id ticket) {c : Change}
    (hw : ∀ x, c = .withdraw x → x.id? ≠ some id) (hv : c.verdict? id = none)
    (hc : ∀ r, c ≠ .enter id r) (hd : c ≠ .dropPoke ticket) :
    (c.onPokes p).Awaits id ticket := by
  rw [verdict?_eq hw] at hv
  unfold Change.onPokes
  cases ho : c.pokeOp? with
  | none => exact h
  | some op =>
    refine h.apply_of_stay hs (by simpa [ho] using hv) ?_ ?_
    · rintro rfl
      obtain ⟨r, hr⟩ := register_of_pokeOp? ho
      exact hc r hr
    · rintro rfl
      exact hd (abandon_of_pokeOp? ho)

/-! ## A run of changes -/

theorem Pokes.Decided.changes {v : Answer} (h : p.Decided id ticket v) {cs : List Change}
    (hc : ∀ r, .enter id r ∉ cs) :
    (cs.foldl (fun p c => c.onPokes p) p).Decided id ticket v := by
  induction cs generalizing p with
  | nil => exact h
  | cons c cs ih =>
    refine ih (h.change ?_) fun r hr => hc r (List.mem_cons_of_mem c hr)
    rintro r rfl
    exact hc r List.mem_cons_self

/-- A poke waits through changes that decide nothing about it, and the first that does has decided
it for good. -/
theorem Pokes.Awaits.changes (hs : p.Sound) (h : p.Awaits id ticket) {cs : List Change}
    (hu : Undisturbed id cs) (hd : .dropPoke ticket ∉ cs) :
    match (cs.filterMap (Change.verdict? id)).head? with
    | none => (cs.foldl (fun p c => c.onPokes p) p).Awaits id ticket
    | some v => (cs.foldl (fun p c => c.onPokes p) p).Decided id ticket v := by
  induction cs generalizing p with
  | nil => exact h
  | cons c cs ih =>
    have hw (x : Command) (hx : c = .withdraw x) : x.id? ≠ some id := by
      subst hx
      exact fun hid => hu.withdrawn x hid List.mem_cons_self
    have hrest : Undisturbed id cs := hu.sublist (List.sublist_cons_self c cs)
    cases hv : c.verdict? id with
    | none =>
      rw [List.mem_cons, not_or] at hd
      rw [List.filterMap_cons_none hv]
      refine ih (hs.change c) (h.change_of_none hs hw hv ?_ (Ne.symm hd.1)) hrest hd.2
      rintro r rfl
      exact hu.entered r List.mem_cons_self
    | some v =>
      rw [List.filterMap_cons_some hv]
      exact (h.change_of_verdict hs hw hv).changes hrest.entered

/-! ## A whole run -/

theorem awaits_call {t : Session} {owner : Nat} {r : Request}
    (h : s.call? owner r = some (.poke id ticket, t)) :
    id = s.state.nextId ∧ t.state.pokes.Awaits id ticket := by
  have hc := (call?_eq_some (n := 0) h).2.1
  cases r <;> simp only [call?, State.register?, hc, State.allocate, Bool.false_eq_true,
    if_false, Option.some.injEq, Prod.mk.injEq, Receipt.poke.injEq, reduceCtorEq, false_and] at h
  obtain ⟨⟨rfl, rfl⟩, rfl⟩ := h
  exact ⟨rfl, Pokes.awaits_register _ _⟩

theorem dropPoke_notMem {as : List Action} (h : .dropPoke ticket ∉ as) :
    .dropPoke ticket ∉ changes n s as := by
  refine fun hm => h (mem_of_mem_changes (fun t b hb => ?_) hm)
  cases b <;> simp_all [change?]

/-- The outcome of a poke that was sent is what the first verdict on it after its registration
says, even if that came before the batch had been delivered. From then on it has no entry, and
whatever follows leaves the outcome alone. -/
theorem poke_outcome (n : Nat) (before after rest : List Action) (owner : Nat) (r : Request)
    {id ticket : Nat} {s : Session}
    (hcall : (run n {} before).call? owner r = some (.poke id ticket, s))
    (hreturn : ∃ m ∈ trail n s (after ++ rest), isReturn id m)
    (hkept : .dropPoke ticket ∉ after) :
    let verdicts := (changes n s after).filterMap (Change.verdict? id)
    let p := (run n s after).state.pokes
    (p.slot ticket).outcome? = verdicts.head? ∧
      (verdicts = [] → p.ticket? id = some ticket) ∧
      (verdicts ≠ [] → ∀ more, let q := (run n s (after ++ more)).state.pokes
        q.ticket? id = none ∧ (q.slot ticket).outcome? = verdicts.head?) := by
  obtain ⟨hid, hawaits⟩ := awaits_call hcall
  obtain ⟨hsound, hlt, hu⟩ := undisturbed_of_call hcall hid hreturn
  have h := hawaits.changes hsound.pokes hu (dropPoke_notMem hkept)
  rw [← run_pokes] at h
  cases hv : (changes n s after).filterMap (Change.verdict? id) with
  | nil =>
    rw [hv] at h
    refine ⟨?_, fun _ => h.ticket, fun hne => absurd rfl hne⟩
    rw [h.slot]
    rfl
  | cons v vs =>
    rw [hv] at h
    refine ⟨h.outcome, fun hnil => by simp at hnil, ?_⟩
    intro _ more
    have hafter := Nat.lt_of_lt_of_le hlt (nextId_le_run (n := n) (s := s) after)
    have hmore := h.changes fun r => enter_notMem_of_lt (n := n) hafter r more
    rw [← run_pokes, ← run_append] at hmore
    exact ⟨hmore.ticket, hmore.outcome⟩

theorem poke_outcome_early_answer :
    let answer : EventStream.Event :=
      { id := some "1", data := "\x7b\"id\":1,\"response\":\"poke\",\"ok\":null\x7d" }
    let r : Request := .poke "zod" "hood" "helm-hi" .null
    let s := ({} : Session).act 3 (.call 0 r)
    let after : List Action :=
      [.connect, .awaken, .opened, .proceed, .receive answer, .settle (.ok ())]
    (run 3 {} []).call? 0 r = some (.poke 1 0, s) ∧
      (∃ m ∈ trail 3 s (after ++ []), isReturn 1 m) ∧ .dropPoke 0 ∉ after ∧
      ((run 3 s after).state.pokes.slot 0).outcome? = some (.ok ()) := by
  intro answer r s after
  have hcall : (run 3 {} []).call? 0 r = some (.poke 1 0, s) := rfl
  have hreturn : ∃ m ∈ trail 3 s (after ++ []), isReturn 1 m :=
    ⟨_, List.mem_of_getElem? (i := 5) rfl, _, rfl, rfl⟩
  have hkept : .dropPoke 0 ∉ after := by simp [after]
  have h := (poke_outcome 3 [] after [] 0 r hcall hreturn hkept).1
  exact ⟨hcall, hreturn, hkept, h.trans (by decide +kernel)⟩

end Session

end ShipBridge
