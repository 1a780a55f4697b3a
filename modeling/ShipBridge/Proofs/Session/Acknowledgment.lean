import Mathlib.Data.List.Induction
import ShipBridge.Proofs.Session.Ids

/-!
# Acknowledgments

A shipment is a batch that has been put on its way. The acknowledgments in the batches that were
delivered ascend over any run, each being the received count at the moment when its batch was
built. The acknowledged count runs ahead of them only while a batch is on its way; otherwise it is
the last of them, so a batch that could not be delivered is undone exactly.
-/

namespace ShipBridge

open Wire

namespace Session

/-- A batch, how far the session had received when it was built, and what became of it. -/
structure Shipment where
  batch : List Command
  received : Nat
  answer : Option Answer := none

def ship (log : List Shipment) : Session × Action → List Shipment
  | (s, .proceed) => match s.proceed? with
    | some (.send batch, _) => { batch, received := s.state.received } :: log
    | _ => log
  | (s, .settle a) => match s.line.sending?, log with
    | some _, p :: log => { p with answer := some a } :: log
    | _, _ => log
  | _ => log

def shipments (tr : List (Session × Action)) : List Shipment := tr.foldl ship []

def Shipment.isDelivered (p : Shipment) : Bool :=
  match p.answer with
  | some (.ok ()) => true
  | _ => false

def ack? : Command → Option Nat
  | .ack k => some k
  | _ => none

/-- The numbers of the events that the delivered batches acknowledge, in order. -/
def deliveredAcks (log : List Shipment) : List Nat :=
  (log.reverse.filter Shipment.isDelivered).flatMap fun p => p.batch.filterMap ack?

variable {n : Nat} {s : Session}

theorem mem_acks {k : Nat} {batch : List Command} :
    k ∈ batch.filterMap ack? ↔ .ack k ∈ batch := by
  constructor
  · intro h
    obtain ⟨c, hc, hk⟩ := List.mem_filterMap.mp h
    cases c with
    | ack j => rwa [← Option.some.inj hk]
    | _ => cases hk
  · intro h
    exact List.mem_filterMap.mpr ⟨_, h, rfl⟩

theorem deliveredAcks_cons (p : Shipment) (log : List Shipment) : deliveredAcks (p :: log) =
    deliveredAcks log ++ if p.isDelivered then p.batch.filterMap ack? else [] := by
  cases h : p.isDelivered <;> simp [deliveredAcks, List.filter_append, h]

theorem le_getLastD_of_pairwise {l : List Nat} (h : l.Pairwise (· < ·)) {x : Nat} (hx : x ∈ l) :
    x ≤ l.getLastD 0 := by
  induction l using List.reverseRecOn with
  | nil => cases hx
  | append_singleton l y ih =>
    rw [List.getLastD_concat]
    rcases List.mem_append.mp hx with hx | hx
    · exact Nat.le_of_lt ((List.pairwise_append.mp h).2.2 x hx y (List.mem_singleton_self y))
    · exact Nat.le_of_eq (List.mem_singleton.mp hx)

theorem State.takeAck_fst (s : State) : s.takeAck.1 =
    if s.received = s.acknowledged then none else some ⟨s.acknowledged, s.received⟩ := by
  unfold State.takeAck
  split_ifs <;> rfl

theorem State.acks_cargo {s : State} {f : Freight}
    (h : ∀ c, f = .command c → c.id?.isSome = true) :
    (s.cargo f).filterMap ack? = (s.takeAck.1.map Advance.after).toList := by
  have hf : f.command?.toList.filterMap ack? = [] := by
    cases f with
    | acknowledgment => rfl
    | command c => cases c <;> first | rfl | simpa [Command.id?] using h _ rfl
  rw [State.cargo, List.filterMap_append, hf, List.append_nil]
  cases s.takeAck.1 <;> rfl

/-! ## The counts under each action -/

/-- As long as nothing has been received, the received count is zero. -/
def State.IsFresh (s : State) : Prop := s.receivedAny = false → s.received = 0

/-- The counts move from one state to another as actions other than sending move them: the
acknowledged count stays and the received one may grow. -/
structure State.Counted (s t : State) : Prop where
  acknowledged : t.acknowledged = s.acknowledged
  received : s.received ≤ t.received
  fresh : s.IsFresh → t.IsFresh

theorem State.Counted.refl (s : State) : s.Counted s := ⟨rfl, Nat.le_refl _, id⟩

theorem State.counted_connect : s.state.Counted s.connect.state := by
  rw [connect_state]
  split_ifs <;> exact ⟨rfl, Nat.le_refl _, id⟩

theorem State.counted_refund (s : State) (f : Freight) : s.Counted (s.refund f) := by
  rw [State.refund_eq]
  exact ⟨rfl, Nat.le_refl _, id⟩

theorem State.counted_noted {s : State} (hf : s.IsFresh) {e : EventStream.Event}
    (h : s.admits e = true) : s.Counted (s.noted e) := by
  cases hk : e.number? with
  | none =>
    simp only [State.noted, hk, Option.elim]
    exact .refl s
  | some k =>
    have ha : s.receivedAny = false ∨ s.received < k := by simpa [State.admits, hk] using h
    refine ⟨by rw [State.noted_eq], ?_, ?_⟩
    · simp only [State.noted, hk, Option.elim]
      rcases ha with ha | ha
      · exact hf ha ▸ Nat.zero_le k
      · exact Nat.le_of_lt ha
    · intro _ hn
      simp [State.noted, hk] at hn

theorem counted_act {a : Action} (hf : s.state.IsFresh) (hp : a ≠ .proceed)
    (hs : ∀ x, a ≠ .settle x) : s.state.Counted (s.act n a).state := by
  have hk := act_keeps (n := n) (s := s) a
  by_cases he : ∃ e, a = .receive e
  · obtain ⟨e, rfl⟩ := he
    rw [act_receive_eq]
    split_ifs with h
    · have ha : s.state.admits e = true := by
        simp only [takes, Bool.and_eq_true] at h
        exact h.2
      have hc := State.counted_noted hf ha
      exact ⟨hc.acknowledged, hc.received, hc.fresh⟩
    · exact ⟨rfl, Nat.le_refl _, id⟩
  · have hr := hk.received fun e ha => he ⟨e, ha⟩
    have hany := hk.receivedAny fun e ha => he ⟨e, ha⟩
    refine ⟨hk.acknowledged hp hs, Nat.le_of_eq hr.symm, ?_⟩
    intro hfresh hn
    rw [hr]
    exact hfresh (hany ▸ hn)

/-! ## The invariant -/

/-- How the counts stand to the shipments made so far. -/
structure Balanced (s : Session) (log : List Shipment) : Prop where
  named : s.Named
  fresh : s.state.IsFresh
  bounded : s.state.acknowledged ≤ s.state.received
  ascending : (deliveredAcks log).Pairwise (· < ·)
  timely : ∀ p ∈ log, ∀ k ∈ p.batch.filterMap ack?, k = p.received
  settled : s.line.sending? = none → s.state.acknowledged = (deliveredAcks log).getLastD 0
  shipping : ∀ e batch d w, s.line = .sending e batch d w →
    (∃ p rest, log = p :: rest ∧ p.isDelivered = false ∧ p.batch = batch ∧
      batch.filterMap ack? = (d.map Advance.after).toList) ∧
    match d with
    | none => s.state.acknowledged = (deliveredAcks log).getLastD 0
    | some d => s.state.acknowledged = d.after ∧ d.before = (deliveredAcks log).getLastD 0 ∧
      d.before < d.after

theorem Line.sending?_push (l : Line) (e : Errand) : (l.push e).sending? = l.sending? := by
  cases l <;> rfl

theorem Line.push_eq_sending {l : Line} {f e : Errand} {batch : List Command} {d : Option Advance}
    {w : List Errand} (h : l.push f = .sending e batch d w) :
    ∃ w', l = .sending e batch d w' := by
  cases l <;> simp_all [Line.push]

theorem Line.sending?_pass (w : List Errand) : (Line.pass w).sending? = none := by
  cases w <;> rfl

/-- An action that leaves the counts and the batch on its way alone keeps the balance. -/
theorem Balanced.of_counted {t : Session} {log : List Shipment} (h : s.Balanced log)
    (hn : t.Named) (hc : s.state.Counted t.state) (hs : t.line.sending? = s.line.sending?)
    (hl : ∀ e batch d w, t.line = .sending e batch d w → ∃ w', s.line = .sending e batch d w') :
    t.Balanced log where
  named := hn
  fresh := hc.fresh h.fresh
  bounded := hc.acknowledged ▸ Nat.le_trans h.bounded hc.received
  ascending := h.ascending
  timely := h.timely
  settled ht := hc.acknowledged ▸ h.settled (hs ▸ ht)
  shipping e batch d w ht := by
    obtain ⟨w', hw⟩ := hl e batch d w ht
    rw [hc.acknowledged]
    exact h.shipping e batch d w' hw

theorem act_line_of_not_moved {a : Action} (hp : a ≠ .proceed) (hs : ∀ x, a ≠ .settle x) :
    (s.act n a).line = s.line ∨ ∃ e, (s.act n a).line = s.line.push e := by
  cases hq : a.isQuiet with
  | true => exact .inl (act_line_of_quiet hq)
  | false =>
    cases a with
    | call owner r =>
      cases hc : s.state.isClosed with
      | true => exact .inl (by rw [act_call_of_closed owner r hc])
      | false => exact .inr ⟨_, act_call_line owner r hc⟩
    | callAcknowledge owner => exact .inr ⟨_, rfl⟩
    | proceed => exact absurd rfl hp
    | settle x => exact absurd rfl (hs x)
    | _ => cases hq

theorem act_line_of_sending {e : Errand} {b : List Command} {d : Option Advance} {w : List Errand}
    (hl : s.line = .sending e b d w) {a : Action} (ha : ∀ x, a ≠ .settle x) :
    ∃ w', (s.act n a).line = .sending e b d w' := by
  by_cases hp : a = .proceed
  · subst hp
    rw [act_proceed_of_not_granted (by rw [hl]; rfl)]
    exact ⟨w, hl⟩
  · rcases act_line_of_not_moved (n := n) (s := s) hp ha with h | ⟨f, h⟩
    · exact ⟨w, h.trans hl⟩
    · exact ⟨w ++ [f], by rw [h, hl]; rfl⟩

theorem Balanced.act_other {log : List Shipment} (h : s.Balanced log) {a : Action}
    (hp : a ≠ .proceed) (hs : ∀ x, a ≠ .settle x) : (s.act n a).Balanced log := by
  refine h.of_counted (h.named.act a) (counted_act h.fresh hp hs) ?_ ?_
  · rcases act_line_of_not_moved (n := n) (s := s) hp hs with hl | ⟨e, hl⟩
    · rw [hl]
    · rw [hl, Line.sending?_push]
  · intro e batch d w ht
    rcases act_line_of_not_moved (n := n) (s := s) hp hs with hl | ⟨f, hl⟩
    · exact ⟨w, hl ▸ ht⟩
    · exact Line.push_eq_sending (hl ▸ ht)

/-- A call that ends without a batch lets the line pass and leaves the counts alone. -/
theorem Balanced.of_pass {t : Session} {log : List Shipment} {w : List Errand}
    (h : s.Balanced log) (hs : s.line.sending? = none) (hn : t.Named)
    (hc : s.state.Counted t.state) (ht : t.line = .pass w) : t.Balanced log := by
  refine h.of_counted hn hc ?_ ?_
  · rw [hs, ht, Line.sending?_pass]
  · intro e batch d w' hl
    have hp := Line.sending?_pass w
    rw [← ht, hl] at hp
    cases hp

theorem deliveredAcks_cons_of_not {p : Shipment} {log : List Shipment}
    (h : p.isDelivered = false) : deliveredAcks (p :: log) = deliveredAcks log := by
  simp [deliveredAcks_cons, h]

theorem Balanced.act_proceed {log : List Shipment} (h : s.Balanced log) :
    (s.act n .proceed).Balanced (ship log (s, .proceed)) := by
  have hn := h.named.act (n := n) .proceed
  cases hl : s.line with
  | granted e w =>
    have hs : s.line.sending? = none := by rw [hl]; rfl
    cases hc : s.state.isClosed with
    | true =>
      have hlog : ship log (s, .proceed) = log := by simp [ship, proceed?, hl, hc]
      rw [act_proceed_of_closed hl hc] at hn ⊢
      rw [hlog]
      exact h.of_pass hs hn (s.state.counted_refund e.freight) rfl
    | false =>
      cases hi : s.state.isIdle e.freight with
      | true =>
        have hlog : ship log (s, .proceed) = log := by
          cases hf : e.freight with
          | command c => simp [State.isIdle, hf] at hi
          | acknowledgment =>
            rw [hf, State.isIdle] at hi
            simp [ship, proceed?, hl, hc, hf, hi]
        rw [act_proceed_of_idle hl hc hi] at hn ⊢
        rw [hlog]
        exact h.of_pass hs hn (.refl _) rfl
      | false =>
        have hcargo : (s.state.cargo e.freight).filterMap ack? =
            (s.state.takeAck.1.map Advance.after).toList :=
          State.acks_cargo fun c hf => h.named e (by rw [hl]; exact List.mem_cons_self) c hf
        rw [act_proceed_of_busy hl hc hi] at hn ⊢
        simp only [ship, proceed?_of_busy hl hc hi]
        refine ⟨hn, h.fresh, Nat.le_refl _, ?_, ?_, by simp [Line.sending?], ?_⟩
        · rw [deliveredAcks_cons_of_not rfl]
          exact h.ascending
        · intro p hp k hk
          rcases List.mem_cons.mp hp with rfl | hp
          · rw [hcargo, State.takeAck_fst] at hk
            split_ifs at hk <;> simp_all
          · exact h.timely p hp k hk
        · intro e' batch d w' hs'
          obtain ⟨-, rfl, rfl, -⟩ := Line.sending.inj hs'
          refine ⟨⟨_, log, rfl, rfl, rfl, hcargo⟩, ?_⟩
          rw [State.takeAck_fst, deliveredAcks_cons_of_not rfl, ← h.settled hs]
          split_ifs with hr
          · exact hr
          · exact ⟨rfl, rfl, Nat.lt_of_le_of_ne h.bounded (Ne.symm hr)⟩
  | _ =>
    have hg : s.line.granted? = none := by rw [hl]; rfl
    have hlog : ship log (s, .proceed) = log := by simp [ship, proceed?, hl]
    rw [act_proceed_of_not_granted hg, hlog]
    exact h

/-- The batch on its way turns out to be delivered, or not. -/
theorem Balanced.of_settle {t : Session} {p : Shipment} {rest : List Shipment} (a : Answer)
    (h : s.Balanced (p :: rest)) (hn : t.Named) (hf : t.state.IsFresh)
    (hb : t.state.acknowledged ≤ t.state.received)
    (hasc : (deliveredAcks ({ p with answer := some a } :: rest)).Pairwise (· < ·))
    (hack : t.state.acknowledged = (deliveredAcks ({ p with answer := some a } :: rest)).getLastD 0)
    (hs : t.line.sending? = none) : t.Balanced ({ p with answer := some a } :: rest) where
  named := hn
  fresh := hf
  bounded := hb
  ascending := hasc
  timely q hq k hk := by
    rcases List.mem_cons.mp hq with rfl | hq
    · exact h.timely p List.mem_cons_self k hk
    · exact h.timely q (List.mem_cons_of_mem p hq) k hk
  settled _ := hack
  shipping e batch d w hl := by
    rw [hl] at hs
    cases hs

theorem counted_conclude_ok (f : Freight) (w : List Errand) :
    s.state.Counted ({ s with line := .pass w }.conclude f (.ok ())).state := by
  cases f with
  | command c => exact State.counted_connect (s := { s with line := .pass w })
  | acknowledgment => exact .refl _

theorem Balanced.act_settle {log : List Shipment} (h : s.Balanced log) (a : Answer) :
    (s.act n (.settle a)).Balanced (ship log (s, .settle a)) := by
  have hn := h.named.act (n := n) (.settle a)
  cases hl : s.line with
  | sending e b d w =>
    obtain ⟨⟨p, rest, rfl, hp, rfl, hacks⟩, hd⟩ := h.shipping e b d w hl
    have hlog : ship (p :: rest) (s, .settle a) = { p with answer := some a } :: rest := by
      simp [ship, hl, Line.sending?]
    have hsent : (s.act n (.settle a)).line.sending? = none := by
      rw [act_settle_line hl, Line.sending?_pass]
    rw [deliveredAcks_cons_of_not hp] at hd
    have hasc := h.ascending
    rw [deliveredAcks_cons_of_not hp] at hasc
    rw [hlog]
    cases a with
    | ok =>
      have hc := counted_conclude_ok (s := s) e.freight w
      have hnew : deliveredAcks ({ p with answer := some (.ok ()) } :: rest) =
          deliveredAcks rest ++ (d.map Advance.after).toList := by
        rw [deliveredAcks_cons, ← hacks]
        rfl
      rw [act_settle_ok hl] at hn hsent ⊢
      have hle := Nat.le_trans h.bounded hc.received
      refine h.of_settle _ hn (hc.fresh h.fresh) (hc.acknowledged ▸ hle) ?_ ?_ hsent
      · rw [hnew]
        cases d with
        | none => simpa using hasc
        | some d =>
          refine List.pairwise_append.mpr ⟨hasc, List.pairwise_singleton _ _, ?_⟩
          intro x hx y hy
          obtain rfl := List.mem_singleton.mp hy
          have hle := le_getLastD_of_pairwise hasc hx
          have hlt := hd.2.2
          have heq := hd.2.1
          omega
      · rw [hnew, hc.acknowledged]
        cases d with
        | none => simpa using hd
        | some d => simpa using hd.1
    | error f =>
      have hnew : deliveredAcks ({ p with answer := some (.error f) } :: rest) =
          deliveredAcks rest := deliveredAcks_cons_of_not rfl
      -- taking back the move leads to where the delivered batches have led
      have hundo : d.elim s.state s.state.revert =
          { s.state with acknowledged := (deliveredAcks rest).getLastD 0 } := by
        cases d with
        | none => rw [Option.elim, ← hd]
        | some d => rw [Option.elim, State.revert, if_pos hd.1, hd.2.1]
      have hle : (deliveredAcks rest).getLastD 0 ≤ s.state.received := by
        have hb := h.bounded
        cases d with
        | none => exact hd ▸ hb
        | some d =>
          have heq := hd.1
          have hlt := hd.2
          omega
      rw [act_settle_error hl, hundo] at hn hsent ⊢
      have hc := State.counted_refund
        { s.state with acknowledged := (deliveredAcks rest).getLastD 0 } e.freight
      refine h.of_settle _ hn (hc.fresh h.fresh) ?_ (hnew ▸ hasc) ?_ hsent
      · rw [hc.acknowledged]
        exact Nat.le_trans hle hc.received
      · rw [hnew, hc.acknowledged]
  | _ =>
    have hs : s.line.sending? = none := by rw [hl]; rfl
    have hlog : ship log (s, .settle a) = log := by simp [ship, hs]
    rw [act_settle_of_not_sending a hs, hlog]
    exact h

theorem Balanced.act {log : List Shipment} (h : s.Balanced log) (a : Action) :
    (s.act n a).Balanced (ship log (s, a)) := by
  cases a with
  | proceed => exact h.act_proceed
  | settle a => exact h.act_settle a
  | _ => exact h.act_other (by simp) (by simp)

theorem balanced_initial : ({} : Session).Balanced [] where
  named e he := by cases he
  fresh _ := rfl
  bounded := Nat.le_refl 0
  ascending := .nil
  timely p hp := by cases hp
  settled _ := rfl
  shipping e batch d w hl := by cases hl

theorem Balanced.run {log : List Shipment} (h : s.Balanced log) (as : List Action) :
    (run n s as).Balanced ((trail n s as).foldl ship log) := by
  induction as generalizing s log with
  | nil => exact h
  | cons a as ih => exact ih (h.act a)

/-- In every session that can be reached the acknowledged count does not exceed the received one.
When no batch is on its way, it is the number of the last event that a delivered batch
acknowledged. The acknowledgments in delivered batches ascend, and each is the received count from
the moment when its batch was built. -/
theorem acknowledgment_safety (n : Nat) (as : List Action) :
    let s := run n {} as
    let log := shipments (trail n {} as)
    s.state.acknowledged ≤ s.state.received ∧
      (s.line.sending? = none → s.state.acknowledged = (deliveredAcks log).getLastD 0) ∧
      (deliveredAcks log).Pairwise (· < ·) ∧
      ∀ p ∈ log, p.isDelivered = true → ∀ k, .ack k ∈ p.batch → k = p.received := by
  have h := balanced_initial.run (n := n) as
  exact ⟨h.bounded, h.settled, h.ascending, fun p hp _ k hk => h.timely p hp k (mem_acks.mpr hk)⟩

end Session

end ShipBridge
