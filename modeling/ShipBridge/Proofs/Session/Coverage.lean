import ShipBridge.Proofs.Session.Acknowledgment

/-!
# What has been received is acknowledged

Once a batch has been delivered, some delivered batch acknowledges every event that had been taken
in by the time when it was built: its own acknowledgment does, or an earlier one that had caught up
with the received count. There is one exception. Both counts begin at zero, so an event with the
number zero leaves no difference between them, and as long as it is the only one nothing
acknowledges it.
-/

namespace ShipBridge

open Wire

namespace Session

def accepted? (s : Session) : Action → Option Nat
  | .receive e => if s.takes e then e.number? else none
  | _ => none

def accepted (tr : List (Session × Action)) : List Nat := tr.filterMap fun m => m.1.accepted? m.2

variable {n : Nat} {s : Session}

/-! ## The received count -/

/-- How the received count stands to the events taken in so far. -/
structure Tallied (s : Session) (ks : List Nat) : Prop where
  ascending : ks.Pairwise (· < ·)
  received : s.state.received = ks.getLastD 0
  any : s.state.receivedAny = false ↔ ks = []

theorem accepted_cons (a : Action) (tr : List (Session × Action)) :
    accepted ((s, a) :: tr) = (s.accepted? a).toList ++ accepted tr := by
  cases h : s.accepted? a <;> simp [accepted, h]

theorem Tallied.act {ks : List Nat} (h : s.Tallied ks) (a : Action) :
    (s.act n a).Tallied (ks ++ (s.accepted? a).toList) := by
  cases hk : s.accepted? a with
  | none =>
    -- the counts stay, or an event without a number is taken in
    have hcounts : (s.act n a).state.received = s.state.received ∧
        (s.act n a).state.receivedAny = s.state.receivedAny := by
      by_cases he : ∃ e, a = .receive e
      · obtain ⟨e, rfl⟩ := he
        rw [act_receive_eq]
        split_ifs with ht
        · have hn : e.number? = none := by simpa [accepted?, ht] using hk
          simp [State.noted, hn]
        · exact ⟨rfl, rfl⟩
      · have hr := act_keeps (n := n) (s := s) a
        exact ⟨hr.received fun e ha => he ⟨e, ha⟩, hr.receivedAny fun e ha => he ⟨e, ha⟩⟩
    rw [Option.toList, List.append_nil]
    exact ⟨h.ascending, hcounts.1.trans h.received, by rw [hcounts.2]; exact h.any⟩
  | some k =>
    obtain ⟨e, rfl⟩ : ∃ e, a = .receive e := by
      cases a <;> first | exact ⟨_, rfl⟩ | simp [accepted?] at hk
    have ht : s.takes e = true ∧ e.number? = some k := by simpa [accepted?] using hk
    have hnoted : (s.state.noted e).receivedAny = true ∧ (s.state.noted e).received = k := by
      simp [State.noted, ht.2]
    have hnew : ∀ j ∈ ks, j < k := by
      have hadmits : s.state.receivedAny = false ∨ s.state.received < k := by
        have ha := (Bool.and_eq_true_iff.mp ht.1).2
        simpa [State.admits, ht.2] using ha
      intro j hj
      rcases hadmits with hfresh | hlt
      · rw [h.any.mp hfresh] at hj
        cases hj
      · exact Nat.lt_of_le_of_lt (h.received ▸ le_getLastD_of_pairwise h.ascending hj) hlt
    rw [act_receive_eq, if_pos ht.1]
    refine ⟨?_, ?_, ?_⟩
    · refine List.pairwise_append.mpr ⟨h.ascending, List.pairwise_singleton _ _, ?_⟩
      intro j hj i hi
      rw [List.mem_singleton.mp hi]
      exact hnew j hj
    · simp [hnoted.2]
    · simp [hnoted.1]

theorem Tallied.run {ks : List Nat} (h : s.Tallied ks) (as : List Action) :
    (run n s as).Tallied (ks ++ accepted (trail n s as)) := by
  induction as generalizing s ks with
  | nil => simpa [Session.run, trail, accepted] using h
  | cons a as ih =>
    have ht := ih (h.act (n := n) a)
    rwa [List.append_assoc, ← accepted_cons] at ht

theorem tallied_initial : ({} : Session).Tallied [] := ⟨.nil, rfl, by simp⟩

/-- If nothing above zero has been received, nothing but the event zero has been taken in. -/
theorem Tallied.eq_zero {ks : List Nat} (h : s.Tallied ks) (hr : s.state.received = 0) {k : Nat}
    (hk : k ∈ ks) : ks = [0] := by
  have hzero : ∀ j ∈ ks, j = 0 := by
    intro j hj
    have hle := le_getLastD_of_pairwise h.ascending hj
    rw [← h.received, hr] at hle
    exact Nat.le_zero.mp hle
  cases ks with
  | nil => cases hk
  | cons i rest =>
    obtain rfl := hzero i List.mem_cons_self
    cases rest with
    | nil => rfl
    | cons j rest =>
      have hlt := (List.pairwise_cons.mp h.ascending).1 j List.mem_cons_self
      have hj := hzero j (List.mem_cons_of_mem 0 List.mem_cons_self)
      omega

/-! ## The acknowledgments in shipments -/

def Positive (log : List Shipment) : Prop := ∀ p ∈ log, ∀ k ∈ p.batch.filterMap ack?, 0 < k

theorem acks_of_send (hn : s.Named) {batch : List Command} {t : Session}
    (h : s.proceed? = some (.send batch, t)) : batch.filterMap ack? =
      if s.state.received = s.state.acknowledged then [] else [s.state.received] := by
  obtain ⟨e, w, hl, hc, hi⟩ := granted_of_send h
  rw [proceed?_of_busy hl hc hi] at h
  obtain ⟨hb, -⟩ := Prod.mk.inj (Option.some.inj h)
  obtain rfl := Move.send.inj hb
  rw [State.acks_cargo fun c hf => hn e (by rw [hl]; exact List.mem_cons_self) c hf,
    State.takeAck_fst]
  split_ifs <;> rfl

theorem Positive.ship {log : List Shipment} (h : Positive log) (hb : s.Balanced log)
    (a : Action) : Positive (ship log (s, a)) := by
  cases a with
  | proceed =>
    simp only [Session.ship]
    split
    · next batch t hs =>
      intro p hp k hk
      rcases List.mem_cons.mp hp with rfl | hp
      · rw [acks_of_send hb.named hs] at hk
        have hle := hb.bounded
        split_ifs at hk with hr
        · cases hk
        · rw [List.mem_singleton.mp hk]
          omega
      · exact h p hp k hk
    · exact h
  | settle x =>
    simp only [Session.ship]
    split
    · next p rest _ =>
      intro q hq k hk
      rcases List.mem_cons.mp hq with rfl | hq
      · exact h p List.mem_cons_self k hk
      · exact h q (List.mem_cons_of_mem p hq) k hk
    · exact h
  | _ => exact h

theorem Positive.run {log : List Shipment} (h : Positive log) (hb : s.Balanced log)
    (as : List Action) : Positive ((trail n s as).foldl Session.ship log) := by
  induction as generalizing s log with
  | nil => exact h
  | cons a as ih => exact ih (h.ship hb a) (hb.act a)

theorem pos_of_mem_deliveredAcks {log : List Shipment} (h : Positive log) {k : Nat}
    (hk : k ∈ deliveredAcks log) : 0 < k := by
  obtain ⟨p, hp, hkp⟩ := List.mem_flatMap.mp hk
  exact h p (List.mem_reverse.mp (List.mem_of_mem_filter hp)) k hkp

/-! ## From the time when a batch is built until it is delivered -/

/-- As long as nothing becomes of it, a batch stays on its way and nothing else is shipped. -/
theorem sending_run {e : Errand} {batch : List Command} {d : Option Advance} {w : List Errand}
    (hl : s.line = .sending e batch d w) (as : List Action) (has : ∀ a, .settle a ∉ as)
    (log : List Shipment) : (∃ w', (run n s as).line = .sending e batch d w') ∧
      (trail n s as).foldl ship log = log := by
  induction as generalizing s w with
  | nil => exact ⟨⟨w, hl⟩, rfl⟩
  | cons a as ih =>
    have hrest (x : Answer) : .settle x ∉ as := fun hm => has x (List.mem_cons_of_mem a hm)
    have ha (x : Answer) : a ≠ .settle x := fun h => has x (h ▸ List.mem_cons_self)
    obtain ⟨w', hw⟩ := act_line_of_sending (n := n) hl ha
    have hlog : ship log (s, a) = log := by
      cases a with
      | proceed => simp [ship, proceed?, hl]
      | settle x => exact absurd rfl (ha x)
      | _ => rfl
    have h := ih hw hrest
    exact ⟨h.1, by rw [trail, List.foldl_cons, hlog, h.2]⟩

/-- The acknowledgments delivered once a batch has been delivered are those that were delivered
before it was built and its own. -/
theorem deliveredAcks_of_delivery (before between : List Action) {batch : List Command}
    {t : Session} (hsend : (run n {} before).proceed? = some (.send batch, t))
    (hheld : ∀ a, .settle a ∉ between) :
    deliveredAcks (shipments (trail n {} (before ++ .proceed :: between ++ [.settle (.ok ())]))) =
      deliveredAcks (shipments (trail n {} before)) ++ batch.filterMap ack? := by
  obtain ⟨e, w, hl, hc, hi⟩ := granted_of_send hsend
  have hnext := act_proceed_of_busy (n := n) hl hc hi
  rw [proceed?_of_busy hl hc hi] at hsend
  obtain ⟨hb, -⟩ := Prod.mk.inj (Option.some.inj hsend)
  obtain rfl := Move.send.inj hb
  have hlog : ship (shipments (trail n {} before)) (run n {} before, .proceed) =
      { batch := (run n {} before).state.cargo e.freight
        received := (run n {} before).state.received } :: shipments (trail n {} before) := by
    simp [ship, proceed?_of_busy hl hc hi]
  obtain ⟨⟨w', hw⟩, hsame⟩ := sending_run (n := n) (s := (run n {} before).act n .proceed)
    (by rw [hnext]) between hheld
    (ship (shipments (trail n {} before)) (run n {} before, .proceed))
  have hfold : shipments (trail n {} (before ++ .proceed :: between ++ [.settle (.ok ())])) =
      ship (ship (shipments (trail n {} before)) (run n {} before, .proceed))
        (run n ((run n {} before).act n .proceed) between, .settle (.ok ())) := by
    rw [List.append_assoc, trail_append, shipments, List.foldl_append, List.cons_append, trail,
      List.foldl_cons, trail_append, List.foldl_append]
    rw [← shipments, hsame]
    rfl
  have hfinal : ship (ship (shipments (trail n {} before)) (run n {} before, .proceed))
      (run n ((run n {} before).act n .proceed) between, .settle (.ok ())) =
      { batch := (run n {} before).state.cargo e.freight
        received := (run n {} before).state.received
        answer := some (.ok ()) } :: shipments (trail n {} before) := by
    rw [hlog]
    simp [ship, hw, Line.sending?]
  rw [hfold, hfinal, deliveredAcks_cons]
  rfl

/-- Once a batch has been delivered, everything that had been taken in when it was built is covered
by an acknowledgment in some delivered batch, unless that was the event zero and nothing else. -/
theorem acknowledgment_coverage (n : Nat) (before between : List Action) {batch : List Command}
    (hput : (run n {} before).demand? .proceed = some (.put batch))
    (hheld : ∀ a, .settle a ∉ between) :
    let as := before ++ .proceed :: between ++ [.settle (.ok ())]
    (∀ k ∈ accepted (trail n {} before), ∃ j ∈ deliveredAcks (shipments (trail n {} as)), k ≤ j) ↔
      accepted (trail n {} before) ≠ [0] := by
  intro as
  obtain ⟨t, hsend⟩ := send_of_put hput
  have hb : (run n {} before).Balanced (shipments (trail n {} before)) :=
    balanced_initial.run before
  have ht : (run n {} before).Tallied (accepted (trail n {} before)) :=
    tallied_initial.run before
  have hpos : Positive (shipments (trail n {} before)) :=
    Positive.run (by simp [Positive]) balanced_initial before
  have hlast := hb.settled (by
    obtain ⟨e, w, hl, -⟩ := granted_of_send hsend
    rw [hl]
    rfl)
  have hacks := deliveredAcks_of_delivery before between hsend hheld
  rw [acks_of_send hb.named hsend] at hacks
  constructor
  · intro hcovered hzero
    rw [hzero] at hcovered ht
    obtain ⟨j, hj, -⟩ := hcovered 0 (List.mem_singleton_self 0)
    have hr : (run n {} before).state.received = 0 := ht.received
    have ha : (run n {} before).state.acknowledged = 0 :=
      Nat.le_zero.mp (Nat.le_trans hb.bounded (Nat.le_of_eq hr))
    rw [hacks, hr, ha, if_pos rfl, List.append_nil] at hj
    -- the last acknowledgment is the acknowledged count, which is zero
    have hle := le_getLastD_of_pairwise hb.ascending hj
    have hj0 := pos_of_mem_deliveredAcks hpos hj
    rw [← hlast, ha] at hle
    omega
  · intro hne k hk
    have hle : k ≤ (run n {} before).state.received :=
      ht.received ▸ le_getLastD_of_pairwise ht.ascending hk
    refine ⟨_, ?_, hle⟩
    rw [hacks]
    by_cases hr : (run n {} before).state.received = (run n {} before).state.acknowledged
    · -- an earlier batch has acknowledged it, as something above zero has been received
      have hne0 : (run n {} before).state.acknowledged ≠ 0 := by
        intro h0
        exact hne (ht.eq_zero (hr.trans h0) hk)
      have hmem : (run n {} before).state.acknowledged ∈
          0 :: deliveredAcks (shipments (trail n {} before)) := hlast ▸ List.getLastD_mem_cons
      rw [if_pos hr, List.append_nil, hr]
      exact (List.mem_cons.mp hmem).resolve_left hne0
    · rw [if_neg hr]
      exact List.mem_append_right _ (List.mem_singleton_self _)

theorem acknowledgment_coverage_earlier :
    let event : EventStream.Event := { id := some "3", data := "" }
    let r : Request := .unsubscribe 1
    let delivery : List Action := [.call 0 r, .proceed, .settle (.ok ())]
    let before : List Action := [.connect, .awaken, .opened, .receive event] ++ delivery ++
      [.call 0 r]
    (run 3 {} before).demand? .proceed = some (.put [.unsubscribe 2 1]) ∧
      (∀ a, .settle a ∉ ([] : List Action)) ∧
      ∀ k ∈ accepted (trail 3 {} before), ∃ j ∈ deliveredAcks (shipments
        (trail 3 {} (before ++ .proceed :: [] ++ [.settle (.ok ())]))), k ≤ j := by
  intro event r delivery before
  have hput : (run 3 {} before).demand? .proceed = some (.put [.unsubscribe 2 1]) := by
    decide +kernel
  have hheld : ∀ a, .settle a ∉ ([] : List Action) := by simp
  exact ⟨hput, hheld, (acknowledgment_coverage 3 before [] hput hheld).mpr (by decide +kernel)⟩

/-- An event with the number zero that comes first is not acknowledged by the next command. -/
theorem zero_unacknowledged :
    let event : EventStream.Event := { id := some "0", data := "" }
    let before : List Action :=
      [.connect, .awaken, .opened, .receive event, .call 0 (.unsubscribe 1)]
    (run 3 {} before).demand? .proceed = some (.put [.unsubscribe 1 1]) ∧
      0 ∈ accepted (trail 3 {} before) ∧
      deliveredAcks (shipments
        (trail 3 {} (before ++ .proceed :: [] ++ [.settle (.ok ())]))) = [] := by
  intro event before
  exact ⟨by decide +kernel, by decide +kernel, by decide +kernel⟩

end Session

end ShipBridge
