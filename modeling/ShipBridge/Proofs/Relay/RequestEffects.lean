import ShipBridge.Proofs.Relay.RequestCharges

/-!
# What a step does about requests

A step of a job takes a request of the editor up, begins to wait for its answer, responds to it and
gives up the charge, speaks to the editor without having been in charge of anything, or does
nothing about requests at all. Whatever else happens to the bridge leaves charges and responses
alone. So slots are given out once, jobs keep numbers of their own, and the clock and the loss of
the editor are not taken back.
-/

namespace ShipBridge.Relay

namespace Machine

/-- A response under an id, with a result or an error and not both. -/
structure Answers (r : Editor.Response) (id : Json) : Prop where
  id_eq : r.id = id
  one : (r.members.map Prod.fst).countP (fun k => k = "result" || k = "error") = 1

/-- Nothing happens to charges and responses. -/
structure Still (m m' : Machine) : Prop where
  charged : ∀ i c, m'.Charged i c ↔ m.Charged i c
  responses : m'.responses = m.responses
  slots : m.pending.slots.length ≤ m'.pending.slots.length
  numbered : m.Numbered → m'.Numbered
  outlet : m'.outlet = .open → m.outlet = .open
  now : m.now ≤ m'.now

variable {e : Surroundings} {m m' : Machine} {j i k : Nat} {key : Json} {c : Charge}

/-- Job `j` has a body from the editor to read. -/
def Reads (e : Surroundings) (m : Machine) (j : Nat) (body : List UInt8) : Prop :=
  ∃ conversation rest, m.task? j = some (.converse conversation) ∧
    Editor.Framing.scan e.limit m.inputEnded m.input = .frame body rest

/-- What a step of job `j` does about requests. -/
inductive Effect (e : Surroundings) (j : Nat) (m m' : Machine) : Prop where
  | still (h : m.Still m')
  | takesUp (id : Json) (t : Task) (u : Machine) (h : Works j [] m u)
      (free : ∀ c, ¬m.Charged j c) (new : m.pending.slots.length < u.pending.slots.length)
      (charge : t.charge? = some { slot := m.pending.slots.length, id })
      (eq : m' = u.become j t)
  | waits (c : Charge) (d : Timer) (t t' : Task) (u : Machine) (h : Works j [] m u)
      (own : m.Charged j c) (sending : c.deadline = none)
      (due : d.due = m.now + e.settings.requestTimeout.millisCeil)
      (charge : t.charge? = some { c with deadline := some d }) (free : t'.charge? = none)
      (eq : m' = (u.spawn t).become j t')
  | responds (c : Charge) (r : Editor.Response) (said : List Editor.Response)
      (h : Works j said m m') (own : m.Charged j c) (answers : Answers r c.id)
      (heard : Heard m' r said) (gone : ∀ c, ¬m'.Charged j c)
  | speaks (body : List UInt8) (r : Editor.Response) (said : List Editor.Response)
      (h : Works j said m m') (heard : Heard m' r said) (free : ∀ c, ¬m.Charged j c)
      (reads : m.Reads e j body)
      (turn : (∃ id method params,
          Editor.Turn.ofBody body = .request id method params ∧ Answers r id) ∨
        ∃ f, Editor.Turn.ofBody body = .unreadable f ∧ .unreadable f = Editor.Message.response r)

theorem respond_eq (id : Json) (o : Outcome) :
    ∃ r, respond id o = .response r ∧ Answers r id := by
  cases o with
  | ok v => exact ⟨_, rfl, rfl, rfl⟩
  | error f => exact ⟨_, rfl, rfl, rfl⟩

theorem Works.still (h : Works j [] m m') (own : ∀ c, m.Charged j c → m'.Charged j c) :
    m.Still m' where
  charged i c := by
    by_cases hi : i = j
    · subst hi
      exact ⟨h.own c, own c⟩
    · exact h.others i c hi
  responses := h.responses
  slots := h.slots
  numbered := h.numbered
  outlet := h.outlet
  now := Nat.le_of_eq h.now.symm

theorem Works.still_of_free (h : Works j [] m m') (free : ∀ c, ¬m.Charged j c) : m.Still m' :=
  h.still fun c hc => absurd hc (free c)

/-! ## Jobs in charge of a request -/

theorem not_charged_dismiss (m : Machine) (j : Nat) (c : Charge) : ¬(m.dismiss j).Charged j c :=
  fun h => (charged_dismiss.mp h).2 rfl

theorem not_charged_become {t : Task} (ht : t.charge? = none) (m : Machine) (j : Nat)
    (c : Charge) : ¬(m.become j t).Charged j c := by
  intro h
  rcases charged_become.mp h with ⟨-, hj⟩ | ⟨-, hc, -⟩
  · exact hj rfl
  · rw [ht] at hc
    cases hc

theorem conclude_effect (own : m.Charged j c) (hkey : c.id = key) (conversation : Nat)
    (f : Forwarded) (o : Outcome) :
    Effect e j m (m.conclude j (.editor conversation key) f o) := by
  obtain ⟨r, hr, hanswers⟩ := respond_eq key o
  obtain ⟨u, hu, heq⟩ : ∃ u, Works j [] m u ∧
      m.conclude j (.editor conversation key) f o = (u.send (.response r)).2.dismiss j := by
    cases o with
    | ok v => exact ⟨m, .refl j m, by rw [← hr]; rfl⟩
    | error fault => exact ⟨_, (Works.refl j m).cleared f, by rw [← hr]; rfl⟩
  obtain ⟨said, hsend, hheard⟩ := hu.send r
  rw [heq]
  exact .responds c r said hsend.dismiss own (hkey ▸ hanswers) hheard (not_charged_dismiss _ j)

theorem sent_effect {u : Machine} (h : Works j [] m u) {f : Forwarded}
    (own : m.Charged j { slot := f.slot, id := key }) (conversation : Nat) (a : Session.Answer) :
    Effect e j m (u.sent e j (.request (.editor conversation key) f) a) := by
  cases a with
  | ok =>
    have hdue : u.now + e.settings.requestTimeout.millisCeil =
        m.now + e.settings.requestTimeout.millisCeil := by rw [h.now]
    exact .waits _ _ (.await (.editor conversation key) f (u.timer e.settings.requestTimeout).1)
      (.converse conversation) _ (h.timer e.settings.requestTimeout) own rfl hdue rfl rfl rfl
  | error fault =>
    obtain ⟨r, hr, hanswers⟩ := respond_eq key (.error (.session fault))
    obtain ⟨said, hsend, hheard⟩ := (h.erase f.correlation).send r
    have heq : u.sent e j (.request (.editor conversation key) f) (.error fault) =
        ({ u with pending := u.pending.erase f.correlation }.send (.response r)).2.become j
          (.converse conversation) := by
      rw [← hr]
      rfl
    rw [heq]
    exact .responds _ r said (hsend.become rfl) own hanswers hheard (not_charged_become rfl _ j)

theorem stepSending_effect {conversation : Nat} {f : Forwarded}
    (own : m.Charged j { slot := f.slot, id := key }) :
    Effect e j m (m.stepSending e j (.request (.editor conversation key) f)) := by
  have h : Works j [] m m := .refl j m
  unfold stepSending
  split
  · next batch s _ =>
    have hput : Works j [] m ({ m with session := s, delivered := none }.emit (.put batch)) := by
      refine Works.emit ?_ rfl
      exact h.of_concern rfl
    exact .still (hput.still fun _ hc => hc)
  · exact sent_effect (h.withSession _) own conversation _
  · split
    · exact .still (h.still fun _ hc => hc)
    · split
      · exact .still (h.still fun _ hc => hc)
      · next s _ =>
        have hread : Works j [] m { m with delivered := none } := h.of_concern rfl
        exact sent_effect (hread.withSession s) own conversation _

theorem await_effect {conversation : Nat} {f : Forwarded} {t : Timer}
    (own : m.Charged j { slot := f.slot, id := key, deadline := some t }) :
    Effect e j m (m.stepTask e j (.await (.editor conversation key) f t)) := by
  rcases m.stepTask_await e j (.editor conversation key) f t with h | ⟨o, h⟩ <;> rw [h]
  · exact .still ((Works.refl j m).still fun _ hc => hc)
  · exact conclude_effect own rfl conversation f o

/-! ## Conversations -/

theorem call?_keeps {r : Session.Request} {receipt : Session.Receipt} {u : Machine}
    (h : m.call? j r = some (receipt, u)) :
    u.pending = m.pending ∧ ∀ p ∈ m.jobs, p ∈ u.jobs := by
  obtain ⟨⟨receipt', s⟩, hs, heq⟩ := Option.map_eq_some_iff.mp h
  obtain ⟨-, rfl⟩ := Prod.mk.inj heq
  unfold withSession
  dsimp only
  split_ifs
  · exact ⟨rfl, fun p hp => List.mem_append_left _ hp⟩
  · exact ⟨rfl, fun p hp => hp⟩

theorem forward?_slot (method : String) (params : Option Json) :
    (m.forward? e j method params).2.pending.slots.length = m.pending.slots.length + 1 ∧
      (∀ p ∈ m.jobs, p ∈ (m.forward? e j method params).2.jobs) ∧
      ∀ f, (m.forward? e j method params).1 = some f → f.slot = m.pending.slots.length := by
  have henter : (m.pending.enter (e.correlate (m.issued + 1))).2.slots.length =
      m.pending.slots.length + 1 := by simp [Pending.enter]
  simp only [forward?]
  split
  · next hc =>
    obtain ⟨hpending, hjobs⟩ := call?_keeps hc
    refine ⟨by rw [hpending]; exact henter, hjobs, ?_⟩
    intro f hf
    rw [← Option.some.inj hf]
    rfl
  · exact ⟨henter, fun p hp => hp, fun f hf => by cases hf⟩

theorem request_effect {u : Machine} (h : Works j [] m u)
    (hslots : u.pending.slots.length = m.pending.slots.length) (conversation : Nat) (key : Json)
    (method : String) (params : Option Json) :
    (∃ t v, Works j [] m v ∧ (∀ p ∈ u.jobs, p ∈ v.jobs) ∧
      m.pending.slots.length < v.pending.slots.length ∧
      t.charge? = some { slot := m.pending.slots.length, id := key } ∧
      u.request e j (.editor conversation key) method params = v.become j t) ∨
    ∃ r said, Works j said m (u.request e j (.editor conversation key) method params) ∧
      Answers r key ∧ Heard (u.request e j (.editor conversation key) method params) r said := by
  have hspot {v : Machine} (hv : Works j [] m v) (o : Outcome) : ∃ r said,
      Works j said m ((v.send (respond key o)).2.become j (.converse conversation)) ∧
      Answers r key ∧
      Heard ((v.send (respond key o)).2.become j (.converse conversation)) r said := by
    obtain ⟨r, hr, hanswers⟩ := respond_eq key o
    obtain ⟨said, hsend, hheard⟩ := hv.send r
    rw [hr]
    exact ⟨r, said, hsend.become rfl, hanswers, hheard⟩
  obtain ⟨hgrown, hjobs, hslot⟩ := u.forward?_slot (e := e) (j := j) method params
  have hforward := h.forward? (e := e) j method params
  unfold request
  split
  · exact .inr (hspot h (.ok capabilities))
  · split
    · next f v hf =>
      rw [hf] at hgrown hjobs hslot hforward
      refine .inl ⟨.sending (.request (.editor conversation key) f), v, hforward, hjobs, ?_, ?_,
        rfl⟩
      · dsimp only at hgrown
        omega
      · rw [← hslots, ← hslot f rfl]
        rfl
    · next v hf =>
      rw [hf] at hforward
      exact .inr (hspot hforward (.error (.session .closed)))

theorem stepTurn_effect {body rest : List UInt8} {conversation : Nat}
    (free : ∀ c, ¬m.Charged j c) (hjob : m.task? j = some (.converse conversation))
    (hscan : Editor.Framing.scan e.limit m.inputEnded m.input = .frame body rest) :
    Effect e j m ({ m with input := rest }.stepTurn e j conversation (.ofBody body)) := by
  have hread : Works j [] m { m with input := rest } := (Works.refl j m).of_concern rfl
  have hreads : m.Reads e j body := ⟨conversation, rest, hjob, hscan⟩
  cases hturn : Editor.Turn.ofBody body with
  | request key method params =>
    rcases request_effect (e := e) hread rfl conversation key method params with
      ⟨t, v, hv, -, hnew, hcharge, heq⟩ | ⟨r, said, hsaid, hanswers, hheard⟩
    · exact .takesUp key t v hv free hnew hcharge heq
    · exact .speaks body r said hsaid hheard free hreads (.inl ⟨_, _, _, hturn, hanswers⟩)
  | notification method params =>
    exact .still ((hread.notify _ method params).still_of_free free)
  | passed => exact .still (hread.still_of_free free)
  | unreadable f =>
    obtain ⟨r, hr⟩ : ∃ r, Editor.Message.unreadable f = .response r := ⟨_, rfl⟩
    obtain ⟨said, hsend, hheard⟩ := hread.send r
    rw [← hr] at hsend hheard
    simp only [stepTurn]
    split
    · next u hu =>
      rw [hu] at hsend hheard
      exact .speaks body r said hsend hheard free hreads (.inr ⟨f, hturn, hr⟩)
    · next u hu =>
      rw [hu] at hsend hheard
      exact .speaks body r said (hsend.finish conversation _ _) hheard free hreads
        (.inr ⟨f, hturn, hr⟩)

theorem stepConverse_effect {conversation : Nat} (free : ∀ c, ¬m.Charged j c)
    (hjob : m.task? j = some (.converse conversation)) :
    Effect e j m (m.stepConverse e j conversation) := by
  have h : Works j [] m m := .refl j m
  unfold stepConverse
  split
  · next body rest hscan => exact stepTurn_effect free hjob hscan
  · exact .still ((h.finish conversation _ _).still_of_free free)
  · exact .still ((h.finish conversation _ _).still_of_free free)
  · exact .still (h.still_of_free free)

/-- What a step of a job does about requests is one of a few things. -/
theorem step_effect (hn : m.Numbered) (j : Nat) : Effect e j m (m.step e j) := by
  have hstay : Effect e j m m := .still ((Works.refl j m).still fun _ hc => hc)
  unfold step
  cases hjob : m.task? j with
  | none => exact hstay
  | some t =>
    have hown (c : Charge) : m.Charged j c ↔ t.charge? = some c := hn.charged_iff hjob
    dsimp only
    split_ifs
    · cases hc : t.charge? with
      | none =>
        have free (c : Charge) : ¬m.Charged j c := by simp [hown, hc]
        by_cases hconverse : ∃ conversation, t = .converse conversation
        · obtain ⟨conversation, rfl⟩ := hconverse
          exact stepConverse_effect free hjob
        · refine .still ((Works.stepTask t hc ?_).still_of_free free)
          intro conversation heq
          exact hconverse ⟨conversation, heq⟩
      | some c =>
        have own : m.Charged j c := (hown c).mpr hc
        unfold Task.charge? at hc
        split at hc
        · obtain rfl := Option.some.inj hc
          exact stepSending_effect own
        · obtain rfl := Option.some.inj hc
          exact await_effect own
        · cases hc
    · exact hstay

theorem after_still (hn : m.Numbered) {h : Happening} (hh : ∀ j, h ≠ .step j) :
    m.Still (m.after e h) := by
  have hw : Works m.born [] m m := .refl _ m
  have free (c : Charge) : ¬m.Charged m.born c := by
    rintro ⟨t, hmem, -⟩
    have hlt := hn.below _ hmem
    omega
  cases h with
  | step j => exact absurd rfl (hh j)
  | passed millis =>
    exact ⟨fun _ _ => .rfl, rfl, Nat.le_refl _, fun hn => ⟨hn.distinct, hn.below⟩, fun ho => ho,
      Nat.le_add_right _ _⟩
  | call caller c => exact (hw.spawn (t := .start caller c) rfl).still_of_free free
  | updated json => exact (hw.route json).still_of_free free
  | connect => exact (hw.withSession _).still_of_free free
  | hungUp => exact (hw.outlet_of_ne (o := .dropped) (by decide)).still_of_free free
  | _ =>
    refine (hw.of_concern ?_).still_of_free free
    rfl

theorem after_effect (hn : m.Numbered) (h : Happening) : ∃ j, Effect e j m (m.after e h) := by
  by_cases hh : ∃ j, h = .step j
  · obtain ⟨j, rfl⟩ := hh
    exact ⟨j, step_effect hn j⟩
  · exact ⟨0, .still (after_still hn fun j hj => hh ⟨j, hj⟩)⟩

/-! ## What no happening undoes -/

structure Onward (m m' : Machine) : Prop where
  slots : m.pending.slots.length ≤ m'.pending.slots.length
  numbered : m.Numbered → m'.Numbered
  outlet : m'.outlet = .open → m.outlet = .open
  now : m.now ≤ m'.now

theorem Works.onward {said : List Editor.Response} (h : Works j said m m') : m.Onward m' :=
  ⟨h.slots, h.numbered, h.outlet, Nat.le_of_eq h.now.symm⟩

theorem Effect.onward (h : Effect e j m m') : m.Onward m' := by
  cases h with
  | still h => exact ⟨h.slots, h.numbered, h.outlet, h.now⟩
  | takesUp id t u h free new charge eq =>
    subst eq
    exact ⟨h.slots, fun hn => (h.numbered hn).become j t, h.outlet, Nat.le_of_eq h.now.symm⟩
  | waits c d t t' u h own sending due charge free eq =>
    subst eq
    exact ⟨h.slots, fun hn => ((h.numbered hn).spawn t).become j t', h.outlet,
      Nat.le_of_eq h.now.symm⟩
  | responds c r said h => exact h.onward
  | speaks body r said h => exact h.onward

theorem after_onward (hn : m.Numbered) (h : Happening) : m.Onward (m.after e h) := by
  obtain ⟨j, heffect⟩ := after_effect (e := e) hn h
  exact heffect.onward

theorem Works.charged {said : List Editor.Response} (h : Works j said m m')
    (hc : m'.Charged i c) : m.Charged i c := by
  by_cases hi : i = j
  · subst hi
    exact h.own c hc
  · exact (h.others i c hi).mp hc

/-- Who is in charge of what after a job has taken a request up. -/
theorem Works.charged_takenUp {said : List Editor.Response} {u : Machine} {t : Task} {d : Charge}
    (h : Works j said m u) (ht : t.charge? = some d) : (u.become j t).Charged i c ↔
      (m.Charged i c ∧ i ≠ j) ∨ (i = j ∧ c = d ∧ ∃ v, (j, v) ∈ u.jobs) := by
  rw [charged_become, ht, Option.some.injEq]
  constructor
  · rintro (⟨hu, hi⟩ | ⟨hi, hc, hv⟩)
    · exact .inl ⟨h.charged hu, hi⟩
    · exact .inr ⟨hi, hc.symm, hv⟩
  · rintro (⟨hm, hi⟩ | ⟨hi, hc, hv⟩)
    · exact .inl ⟨(h.others i c hi).mpr hm, hi⟩
    · exact .inr ⟨hi, hc.symm, hv⟩

/-- Who is in charge of what after a job has handed its request on to a new one. -/
theorem Works.charged_handedOn {said : List Editor.Response} {u : Machine} {t t' : Task}
    {d : Charge} (h : Works j said m u) (ht : t.charge? = some d) (ht' : t'.charge? = none) :
    ((u.spawn t).become j t').Charged i c ↔
      i ≠ j ∧ (m.Charged i c ∨ (i = u.born ∧ c = d)) := by
  rw [charged_become, charged_spawn, ht, ht', Option.some.injEq]
  constructor
  · rintro (⟨hu | ⟨hi, hc⟩, hne⟩ | ⟨-, hnone, -⟩)
    · exact ⟨hne, .inl (h.charged hu)⟩
    · exact ⟨hne, .inr ⟨hi, hc.symm⟩⟩
    · cases hnone
  · rintro ⟨hne, hm | ⟨hi, hc⟩⟩
    · exact .inl ⟨.inl ((h.others i c hne).mpr hm), hne⟩
    · exact .inl ⟨.inr ⟨hi, hc.symm⟩, hne⟩

/-- A charge is for a slot that some job was in charge of before, or for a new one. -/
theorem Effect.slot (h : Effect e j m m') (hc : m'.Charged i c) :
    (∃ k d, m.Charged k d ∧ d.slot = c.slot) ∨
      (c.slot = m.pending.slots.length ∧ m.pending.slots.length < m'.pending.slots.length) := by
  cases h with
  | still hs => exact .inl ⟨i, c, (hs.charged i c).mp hc, rfl⟩
  | responds d r said hw => exact .inl ⟨i, c, hw.charged hc, rfl⟩
  | speaks body r said hw => exact .inl ⟨i, c, hw.charged hc, rfl⟩
  | takesUp id t u hw free new charge eq =>
    subst eq
    rcases (hw.charged_takenUp charge).mp hc with ⟨hm, -⟩ | ⟨-, rfl, -⟩
    · exact .inl ⟨i, c, hm, rfl⟩
    · exact .inr ⟨rfl, new⟩
  | waits d dl t t' u hw own sending due charge free eq =>
    subst eq
    obtain ⟨-, hm | ⟨-, rfl⟩⟩ := (hw.charged_handedOn charge free).mp hc
    · exact .inl ⟨i, c, hm, rfl⟩
    · exact .inl ⟨j, d, own, rfl⟩

theorem after_slot (hn : m.Numbered) {h : Happening} (hc : (m.after e h).Charged i c) :
    (∃ k d, m.Charged k d ∧ d.slot = c.slot) ∨ (c.slot = m.pending.slots.length ∧
      m.pending.slots.length < (m.after e h).pending.slots.length) := by
  obtain ⟨j, heffect⟩ := after_effect (e := e) hn h
  exact heffect.slot hc

/-- Jobs have numbers of their own, and no charge is for a slot that has not been given out. -/
structure Orderly (m : Machine) : Prop where
  numbered : m.Numbered
  below : ∀ i c, m.Charged i c → c.slot < m.pending.slots.length

theorem Orderly.after (h : m.Orderly) (a : Happening) : (m.after e a).Orderly := by
  have honward := after_onward (e := e) h.numbered a
  refine ⟨honward.numbered h.numbered, ?_⟩
  intro i c hc
  rcases after_slot h.numbered hc with ⟨k, d, hd, hslot⟩ | ⟨hslot, hnew⟩
  · have hlt := h.below k d hd
    have hle := honward.slots
    omega
  · omega

theorem orderly_initial : ({} : Machine).Orderly :=
  ⟨⟨List.nodup_nil, fun _ hp => by cases hp⟩, by rintro i c ⟨t, hmem, -⟩; cases hmem⟩

theorem Orderly.run (h : m.Orderly) (hs : List Happening) : (m.run e hs).Orderly :=
  run_induction h (fun _ a h => h.after a) hs

theorem run_onward (h : m.Orderly) (hs : List Happening) : m.Onward (m.run e hs) := by
  refine (run_induction (P := fun u => u.Orderly ∧ m.Onward u)
    ⟨h, Nat.le_refl _, fun hn => hn, fun ho => ho, Nat.le_refl _⟩ ?_ hs).2
  intro u a hu
  have honward := after_onward (e := e) hu.1.numbered a
  exact ⟨hu.1.after a, Nat.le_trans hu.2.slots honward.slots,
    fun hn => honward.numbered (hu.2.numbered hn), fun ho => hu.2.outlet (honward.outlet ho),
    Nat.le_trans hu.2.now honward.now⟩

end Machine

end ShipBridge.Relay
