import ShipBridge.Proofs.Session.Acknowledgment

/-!
# Batches leave in the order of the calls

A call that joins the queue for the line keeps its place in it. Its turn comes after those of all
calls before it; then it sends its batch, unless there is nothing left to send. The next turn comes
when something has become of that batch. So at any time the calls whose turn has come, followed by
those that still wait, are the calls that have joined, in the same order, and what a batch
acknowledges depends on the counts as the batches before it have left them.
-/

namespace ShipBridge

open Wire

namespace Session

def Line.queue : Line → List Errand
  | .free => []
  | .granted e waiting => e :: waiting
  | .sending _ _ _ waiting => waiting

def Line.load : Line → Nat
  | .sending .. => 1
  | .free | .granted .. => 0

/-- The call that joins the queue with an action. A command is given its id as it joins. -/
def joins? (s : Session) : Action → Option Errand
  | .call owner r =>
    if s.state.isClosed then none else some ⟨owner, .command (r.command s.state.nextId)⟩
  | .callAcknowledge owner => some ⟨owner, .acknowledgment⟩
  | _ => none

def put? (s : Session) (a : Action) : Option (List Command) :=
  match s.demand? a with
  | some (.put batch) => some batch
  | _ => none

/-- The call whose turn comes with an action, and the batch that it sends, if it sends one. -/
def turn? (s : Session) : Action → Option (Errand × Option (List Command))
  | .proceed => match s.line with
    | .granted e _ => some (e, s.put? .proceed)
    | _ => none
  | _ => none

/-- Does something become of the batch on its way? -/
def lands (s : Session) : Action → Bool
  | .settle _ => s.line.sending?.isSome
  | _ => false

def joined (tr : List (Session × Action)) : List Errand := tr.filterMap fun m => m.1.joins? m.2

def turns (tr : List (Session × Action)) : List (Errand × Option (List Command)) :=
  tr.filterMap fun m => m.1.turn? m.2

def puts (tr : List (Session × Action)) : List (List Command) :=
  tr.filterMap fun m => m.1.put? m.2

variable {n : Nat} {s : Session}

/-! ## One action -/

theorem put?_eq_some {a : Action} {batch : List Command} :
    s.put? a = some batch ↔ s.demand? a = some (.put batch) := by
  unfold put?
  split
  · next b hb => rw [hb, Option.some.injEq, Option.some.injEq, Demand.put.injEq]
  · next hne => exact ⟨fun h => (by cases h), fun h => absurd h (hne batch)⟩

theorem put?_eq_none_of_ne {a : Action} (h : a ≠ .proceed) : s.put? a = none := by
  rw [Option.eq_none_iff_forall_ne_some]
  intro batch hb
  rw [put?_eq_some] at hb
  cases a with
  | proceed => exact h rfl
  | awaken =>
    obtain ⟨resume, -, hr⟩ := Option.map_eq_some_iff.mp hb
    cases hr
  | close =>
    simp only [demand?] at hb
    split_ifs at hb
    cases hb
  | _ => cases hb

theorem turn?_of_granted {e : Errand} {w : List Errand} (hl : s.line = .granted e w) :
    s.turn? .proceed = some (e, s.put? .proceed) := by
  simp [turn?, hl]

theorem put?_proceed {e : Errand} {w : List Errand} (hl : s.line = .granted e w) :
    s.put? .proceed = if s.state.isClosed || s.state.isIdle e.freight then none
      else some (s.state.cargo e.freight) := by
  cases hc : s.state.isClosed with
  | true => simp [put?, demand?, proceed?, hl, hc]
  | false =>
    cases hi : s.state.isIdle e.freight with
    | true =>
      cases hf : e.freight with
      | command c => simp [State.isIdle, hf] at hi
      | acknowledgment =>
        rw [hf, State.isIdle] at hi
        simp [put?, demand?, proceed?, hl, hc, hf, hi]
    | false => simp [put?, demand?, proceed?_of_busy hl hc hi]

theorem put?_of_not_granted (h : s.line.granted? = none) : s.put? .proceed = none := by
  cases hl : s.line with
  | granted e w => simp [hl, Line.granted?] at h
  | _ => simp [put?, demand?, proceed?, hl]

@[simp] theorem Line.queue_granted (e : Errand) (w : List Errand) :
    (Line.granted e w).queue = e :: w := rfl

@[simp] theorem Line.queue_sending (e : Errand) (b : List Command) (d : Option Advance)
    (w : List Errand) : (Line.sending e b d w).queue = w := rfl

@[simp] theorem Line.queue_push (l : Line) (e : Errand) : (l.push e).queue = l.queue ++ [e] := by
  cases l <;> rfl

@[simp] theorem Line.queue_pass (w : List Errand) : (Line.pass w).queue = w := by
  cases w <;> rfl

@[simp] theorem Line.load_granted (e : Errand) (w : List Errand) :
    (Line.granted e w).load = 0 := rfl

@[simp] theorem Line.load_sending (e : Errand) (b : List Command) (d : Option Advance)
    (w : List Errand) : (Line.sending e b d w).load = 1 := rfl

@[simp] theorem Line.load_push (l : Line) (e : Errand) : (l.push e).load = l.load := by
  cases l <;> rfl

@[simp] theorem Line.load_pass (w : List Errand) : (Line.pass w).load = 0 := by
  cases w <;> rfl

/-- Whose turn comes with an action, followed by those who wait then, are those who waited before,
followed by who joins. -/
theorem queue_act (a : Action) : ((s.turn? a).map Prod.fst).toList ++ (s.act n a).line.queue =
    s.line.queue ++ (s.joins? a).toList := by
  cases hq : a.isQuiet with
  | true =>
    rw [act_line_of_quiet hq]
    have hnone : s.turn? a = none ∧ s.joins? a = none := by
      cases a <;> first | exact ⟨rfl, rfl⟩ | cases hq
    simp [hnone.1, hnone.2]
  | false =>
    cases a with
    | call owner r =>
      cases hc : s.state.isClosed with
      | true => simp [act_call_of_closed owner r hc, turn?, joins?, hc]
      | false => simp [act_call_line owner r hc, turn?, joins?, hc]
    | callAcknowledge owner => simp [act, callAcknowledge, turn?, joins?]
    | proceed =>
      cases hl : s.line with
      | granted e w =>
        rw [turn?_of_granted hl]
        cases hc : s.state.isClosed with
        | true => simp [act_proceed_of_closed hl hc, joins?]
        | false =>
          cases hi : s.state.isIdle e.freight with
          | true => simp [act_proceed_of_idle hl hc hi, joins?]
          | false => simp [act_proceed_of_busy hl hc hi, joins?]
      | _ => simp [act_proceed_of_not_granted, hl, Line.granted?, turn?, joins?]
    | settle x =>
      cases hl : s.line with
      | sending e b d w => simp [act_settle_line hl, turn?, joins?]
      | _ => simp [act_settle_of_not_sending, hl, Line.sending?, turn?, joins?]
    | _ => cases hq

/-- With a batch that is put on its way there is one more, and with one that lands one less. -/
theorem load_act (a : Action) : (s.put? a).toList.length + s.line.load =
    (s.lands a).toNat + (s.act n a).line.load := by
  by_cases hp : a = .proceed
  · subst hp
    cases hl : s.line with
    | granted e w =>
      rw [put?_proceed hl]
      cases hc : s.state.isClosed with
      | true => simp [act_proceed_of_closed hl hc, lands]
      | false =>
        cases hi : s.state.isIdle e.freight with
        | true => simp [act_proceed_of_idle hl hc hi, lands]
        | false => simp [act_proceed_of_busy hl hc hi, lands]
    | _ =>
      have hg : s.line.granted? = none := by rw [hl]; rfl
      rw [act_proceed_of_not_granted hg, put?_of_not_granted hg, hl]
      simp [lands]
  · rw [put?_eq_none_of_ne hp]
    by_cases hs : ∃ x, a = .settle x
    · obtain ⟨x, rfl⟩ := hs
      cases hl : s.line with
      | sending e b d w => simp [act_settle_line hl, lands, hl, Line.sending?]
      | _ => simp [act_settle_of_not_sending, hl, lands, Line.sending?]
    · have hlands : s.lands a = false := by
        cases a <;> first | rfl | exact absurd ⟨_, rfl⟩ hs
      have hsame : (s.act n a).line.load = s.line.load := by
        rcases act_line_of_not_moved (n := n) (s := s) hp fun x hx => hs ⟨x, hx⟩ with h | ⟨e, h⟩
        · rw [h]
        · rw [h, Line.load_push]
      simp [hlands, hsame]

theorem id?_of_joins {a : Action} {e : Errand} (h : s.joins? a = some e) :
    e.id? = s.allotted? a := by
  cases a with
  | call owner r =>
    simp only [joins?] at h
    split_ifs at h with hc
    obtain rfl := Option.some.inj h
    simp [Errand.id?, Freight.command?, allotted?, hc]
  | callAcknowledge owner =>
    obtain rfl := Option.some.inj h
    rfl
  | _ => cases h

/-! ## A run -/

/-- How the queue stands to the calls that have joined it and those whose turn has come. -/
structure Queued (s : Session) (before : List Errand) (all : List Errand) : Prop where
  order : before ++ s.line.queue = all
  ascending : (all.filterMap Errand.id?).Pairwise (· < ·)
  below : ∀ i ∈ all.filterMap Errand.id?, i < s.state.nextId

theorem Queued.act {before all : List Errand} (h : s.Queued before all) (a : Action) :
    (s.act n a).Queued (before ++ ((s.turn? a).map Prod.fst).toList)
      (all ++ (s.joins? a).toList) := by
  have hnew : ∀ j ∈ (s.joins? a).toList.filterMap Errand.id?,
      j = s.state.nextId ∧ (s.allotted? a).toList.length = 1 := by
    intro j hj
    obtain ⟨e, he, hje⟩ := List.mem_filterMap.mp hj
    rw [id?_of_joins (Option.mem_toList.mp he)] at hje
    refine ⟨?_, by rw [hje]; rfl⟩
    cases a <;> simp_all [allotted?]
  refine ⟨?_, ?_, ?_⟩
  · rw [List.append_assoc, queue_act, ← List.append_assoc, h.order]
  · rw [List.filterMap_append]
    refine List.pairwise_append.mpr ⟨h.ascending, ?_, ?_⟩
    · cases s.joins? a with
      | none => exact .nil
      | some e => cases he : e.id? <;> simp [he]
    · intro i hi j hj
      rw [(hnew j hj).1]
      exact h.below i hi
  · intro i hi
    rw [List.filterMap_append] at hi
    rw [act_nextId]
    rcases List.mem_append.mp hi with hi | hi
    · have hlt := h.below i hi
      omega
    · have hj := hnew i hi
      omega

theorem queued_initial : ({} : Session).Queued [] [] := ⟨rfl, .nil, by simp⟩

theorem Queued.run {before all : List Errand} (h : s.Queued before all) (as : List Action) :
    (run n s as).Queued (before ++ (turns (trail n s as)).map Prod.fst)
      (all ++ joined (trail n s as)) := by
  induction as generalizing s before all with
  | nil => simpa [Session.run, trail, turns, joined] using h
  | cons a as ih =>
    have hn := ih (h.act (n := n) a)
    have hturns : (turns (trail n s (a :: as))).map Prod.fst =
        ((s.turn? a).map Prod.fst).toList ++ (turns (trail n (s.act n a) as)).map Prod.fst := by
      rw [trail, turns, List.filterMap_cons]
      cases s.turn? a <;> rfl
    have hjoined : joined (trail n s (a :: as)) =
        (s.joins? a).toList ++ joined (trail n (s.act n a) as) := by
      rw [trail, joined, List.filterMap_cons]
      cases s.joins? a <;> rfl
    rwa [hturns, hjoined, ← List.append_assoc, ← List.append_assoc]

theorem puts_cons (a : Action) (tr : List (Session × Action)) :
    puts ((s, a) :: tr) = (s.put? a).toList ++ puts tr := by
  rw [puts, List.filterMap_cons]
  cases s.put? a <;> rfl

/-- As many batches have landed as have been put on their way, but for the one that still is. -/
theorem length_puts (as : List Action) : (puts (trail n s as)).length + s.line.load =
    (trail n s as).countP (fun m => m.1.lands m.2) + (run n s as).line.load := by
  induction as generalizing s with
  | nil => simp [puts, trail, run]
  | cons a as ih =>
    have hstep := load_act (n := n) (s := s) a
    have hrest := ih (s := s.act n a)
    have hcount : (trail n s (a :: as)).countP (fun m => m.1.lands m.2) =
        (trail n (s.act n a) as).countP (fun m => m.1.lands m.2) + (s.lands a).toNat := by
      rw [trail, List.countP_cons]
      cases s.lands a <;> rfl
    have hrun : run n s (a :: as) = run n (s.act n a) as := rfl
    rw [hcount, hrun, trail, puts_cons, List.length_append]
    omega

theorem puts_eq_turns (as : List Action) :
    puts (trail n s as) = (turns (trail n s as)).filterMap Prod.snd := by
  induction as generalizing s with
  | nil => rfl
  | cons a as ih =>
    have hstep : (s.put? a).toList = ((s.turn? a).bind Prod.snd).toList := by
      by_cases hp : a = .proceed
      · subst hp
        cases hl : s.line with
        | granted e w => rw [turn?_of_granted hl]; rfl
        | _ => rw [put?_of_not_granted (by rw [hl]; rfl)]; simp [turn?, hl]
      · rw [put?_eq_none_of_ne hp]
        cases a <;> first | rfl | exact absurd rfl hp
    rw [trail, puts_cons, ih, hstep, turns, turns, List.filterMap_cons]
    cases s.turn? a with
    | none => rfl
    | some p => cases hb : p.2 <;> simp [hb]

theorem cargo_of_turn {e : Errand} {batch : List Command} {a : Action}
    (h : s.turn? a = some (e, some batch)) : batch = s.state.cargo e.freight := by
  cases a with
  | proceed =>
    cases hl : s.line with
    | granted f w =>
      rw [turn?_of_granted hl, put?_proceed hl] at h
      obtain ⟨rfl, hb⟩ := Prod.mk.inj (Option.some.inj h)
      split_ifs at hb
      exact (Option.some.inj hb).symm
    | _ => simp [turn?, hl] at h
  | _ => cases h

theorem ids_of_turn {e : Errand} {batch : List Command} {a : Action}
    (h : s.turn? a = some (e, some batch)) : batch.filterMap Command.id? = e.id?.toList := by
  have hack : (s.state.takeAck.1.map fun a => Command.ack a.after).toList.filterMap
      Command.id? = [] := by
    cases s.state.takeAck.1 <;> rfl
  rw [cargo_of_turn h, State.cargo, List.filterMap_append, hack, List.nil_append, Errand.id?]
  cases e.freight with
  | command c => cases c <;> rfl
  | acknowledgment => rfl

theorem ids_of_turns (as : List Action) :
    ((puts (trail n s as)).flatMap fun batch => batch.filterMap Command.id?).Sublist
      (((turns (trail n s as)).map Prod.fst).filterMap Errand.id?) := by
  have key (ts : List (Errand × Option (List Command)))
      (hts : ∀ e batch, (e, some batch) ∈ ts → batch.filterMap Command.id? = e.id?.toList) :
      ((ts.filterMap Prod.snd).flatMap fun batch => batch.filterMap Command.id?).Sublist
        ((ts.map Prod.fst).filterMap Errand.id?) := by
    induction ts with
    | nil => exact .slnil
    | cons p ts ih =>
      have hrest := ih fun e batch hm => hts e batch (List.mem_cons_of_mem p hm)
      obtain ⟨e, batch⟩ := p
      rw [List.map_cons, filterMap_id?_cons]
      cases batch with
      | none => exact hrest.trans (List.sublist_append_right _ _)
      | some batch =>
        have hcons : ((e, some batch) :: ts).filterMap Prod.snd = batch :: ts.filterMap Prod.snd :=
          rfl
        rw [hcons, List.flatMap_cons, hts e batch List.mem_cons_self]
        exact (List.Sublist.refl _).append hrest
  rw [puts_eq_turns]
  refine key _ fun e batch hm => ?_
  obtain ⟨m, -, ht⟩ := List.mem_filterMap.mp hm
  exact ids_of_turn ht

/-- The freight of a call becomes a batch: its command, after an acknowledgment if one is due, or
an acknowledgment alone. -/
def Packs (s : State) (f : Freight) (batch : List Command) : Prop :=
  (∃ c, f = .command c ∧ c.id?.isSome = true ∧
    batch = if s.received = s.acknowledged then [c] else [.ack s.received, c]) ∨
  (f = .acknowledgment ∧ s.received ≠ s.acknowledged ∧ batch = [.ack s.received])

theorem packs_cargo {f : Freight} (hi : s.state.isIdle f = false)
    (hn : ∀ c, f = .command c → c.id?.isSome = true) : Packs s.state f (s.state.cargo f) := by
  cases f with
  | command c =>
    refine .inl ⟨c, rfl, hn c rfl, ?_⟩
    rw [State.cargo, State.takeAck_fst]
    split_ifs <;> rfl
  | acknowledgment =>
    have hd : s.state.received ≠ s.state.acknowledged := by
      have hd : s.state.receivedAny = true ∧ s.state.acknowledged ≠ s.state.received := by
        simpa [State.isIdle] using hi
      exact hd.2.symm
    refine .inr ⟨rfl, hd, ?_⟩
    rw [State.cargo, State.takeAck_fst, if_neg hd]
    rfl

theorem named_run (as : List Action) : (run n {} as).Named :=
  run_induction (P := Named) (by intro e he; cases he) (fun _ a h => h.act a) as

/-- One batch at most is on its way: as many have landed as have been put on their way, but for
that one. Turns come in the order in which calls have joined the queue, and the batches that they
bring are all that there are. The ids of the commands in them ascend. A batch is put on its way
when all those before it have landed, and then it carries the command of the call whose turn it
is, after an acknowledgment just if the counts differ at that moment, or such an acknowledgment
alone; the turn of a call brings no batch only if the session is closed or the call has nothing to
acknowledge. -/
theorem batches_in_order (n : Nat) (as : List Action) :
    let tr := trail n {} as
    let s := run n {} as
    let landed := tr.countP fun m => m.1.lands m.2
    (puts tr).length = landed + s.line.load ∧ s.line.load ≤ 1 ∧
      (turns tr).map Prod.fst ++ s.line.queue = joined tr ∧
      puts tr = (turns tr).filterMap Prod.snd ∧
      ((puts tr).flatMap fun batch => batch.filterMap Command.id?).Pairwise (· < ·) ∧
      ∀ e batch?, s.turn? .proceed = some (e, batch?) → (puts tr).length = landed ∧
        match batch? with
        | some batch => Packs s.state e.freight batch
        | none => s.state.isClosed = true ∨ s.state.isIdle e.freight = true := by
  intro tr s landed
  have hqueued : s.Queued ((turns tr).map Prod.fst) (joined tr) := queued_initial.run (n := n) as
  have hlength : (puts tr).length = landed + s.line.load := length_puts (n := n) (s := {}) as
  refine ⟨hlength, by cases s.line <;> simp [Line.load], hqueued.order, puts_eq_turns as, ?_, ?_⟩
  · have hturns : (((turns tr).map Prod.fst).filterMap Errand.id?).Pairwise (· < ·) := by
      have hall := hqueued.ascending
      rw [← hqueued.order, List.filterMap_append] at hall
      exact (List.pairwise_append.mp hall).1
    exact hturns.sublist (ids_of_turns as)
  · intro e batch? ht
    cases hl : s.line with
    | granted f w =>
      rw [hl] at hlength
      refine ⟨hlength, ?_⟩
      rw [turn?_of_granted hl, put?_proceed hl] at ht
      obtain ⟨rfl, rfl⟩ := Prod.mk.inj (Option.some.inj ht)
      cases hc : s.state.isClosed with
      | true => exact .inl rfl
      | false =>
        cases hi : s.state.isIdle f.freight with
        | true => exact .inr rfl
        | false =>
          have hnamed := named_run (n := n) as f (by
            change f ∈ s.line.errands
            rw [hl]
            exact List.mem_cons_self)
          exact packs_cargo hi hnamed
    | _ => simp [turn?, hl] at ht

/-- A batch that could not be delivered has acknowledged nothing, so the next one does. -/
theorem batches_in_order_reverted :
    let event : EventStream.Event := { id := some "3", data := "" }
    let r : Request := .unsubscribe 1
    let as : List Action := [.connect, .awaken, .opened, .receive event, .call 0 r, .call 1 r,
      .proceed, .settle (.error (.network "reset"))]
    let s := run 3 {} as
    s.turn? .proceed =
        some (⟨1, .command (.unsubscribe 2 1)⟩, some [.ack 3, .unsubscribe 2 1]) ∧
      Packs s.state (.command (.unsubscribe 2 1)) [.ack 3, .unsubscribe 2 1] := by
  intro event r as s
  have hturn : s.turn? .proceed =
      some (⟨1, .command (.unsubscribe 2 1)⟩, some [.ack 3, .unsubscribe 2 1]) := by
    decide +kernel
  exact ⟨hturn, ((batches_in_order 3 as).2.2.2.2.2 _ _ hturn).2⟩

end Session

end ShipBridge
