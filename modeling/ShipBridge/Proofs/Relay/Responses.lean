import ShipBridge.Proofs.Relay.RequestEffects

/-!
# One response for each request

The editor gets one response for each request that the bridge reads from it. Until then one job is
in charge of the request; it has no charge left once it has responded, and nobody else takes the
charge on. If the request has been sent, or could not be, then once the time for requests has
passed the response is there or is what the job in charge will do next, whatever the ship, the
callers and the transport do meanwhile.
-/

namespace ShipBridge.Relay

namespace Machine

variable {e : Surroundings} {m m' : Machine} {j i k : Nat} {c : Charge}

/-! ## One slot -/

/-- The slot of the request that a happening serves: a step of a job serves the one that the job is
in charge of. -/
def servedBy? (m : Machine) : Happening → Option Nat
  | .step j => ((m.task? j).bind Task.charge?).map Charge.slot
  | _ => none

/-- Job `j` and no other is in charge of a slot, with charge `c`. -/
structure Held (m : Machine) (j : Nat) (c : Charge) : Prop where
  charged : m.Charged j c
  sole : ∀ i d, m.Charged i d → d.slot = c.slot → i = j ∧ d = c

def Freed (m : Machine) (k : Nat) : Prop := ∀ i c, m.Charged i c → c.slot ≠ k

theorem Numbered.task?_of_charged (hn : m.Numbered) (hc : m.Charged j c) :
    ∃ t, m.task? j = some t ∧ t.charge? = some c := by
  cases ht : m.task? j with
  | none =>
    obtain ⟨t, hmem, -⟩ := hc
    exact absurd (List.mem_map_of_mem hmem) (Session.notMem_keys_of_lookup ht)
  | some t => exact ⟨t, rfl, (hn.charged_iff ht).mp hc⟩

theorem Numbered.charged_unique (hn : m.Numbered) {d : Charge} (hc : m.Charged j c)
    (hd : m.Charged j d) : d = c := by
  obtain ⟨t, ht, hcharge⟩ := hn.task?_of_charged hc
  have hcharge' := (hn.charged_iff ht).mp hd
  rw [hcharge] at hcharge'
  exact (Option.some.inj hcharge').symm

theorem Numbered.servedBy?_eq_some (hn : m.Numbered) {h : Happening} :
    m.servedBy? h = some k ↔ ∃ i c, h = .step i ∧ m.Charged i c ∧ c.slot = k := by
  constructor
  · intro hs
    cases h with
    | step i =>
      obtain ⟨c, hc, hslot⟩ := Option.map_eq_some_iff.mp hs
      obtain ⟨t, ht, hcharge⟩ := Option.bind_eq_some_iff.mp hc
      exact ⟨i, c, rfl, (hn.charged_iff ht).mpr hcharge, hslot⟩
    | _ => cases hs
  · rintro ⟨i, c, rfl, hc, hslot⟩
    obtain ⟨t, ht, hcharge⟩ := hn.task?_of_charged hc
    simp [servedBy?, ht, hcharge, hslot]

theorem Works.elsewhere {said : List Editor.Response} (h : Works i said m m')
    (hi : ∀ c, m.Charged i c → c.slot ≠ k) (hc : c.slot = k) :
    m'.Charged j c ↔ m.Charged j c := by
  by_cases hj : j = i
  · subst hj
    exact ⟨h.own c, fun hm => absurd hc (hi c hm)⟩
  · exact h.others j c hj

theorem Effect.elsewhere (h : Effect e i m m') (hi : ∀ c, m.Charged i c → c.slot ≠ k)
    (hk : k < m.pending.slots.length) (hc : c.slot = k) : m'.Charged j c ↔ m.Charged j c := by
  cases h with
  | still hs => exact hs.charged j c
  | responds d r said hw => exact hw.elsewhere hi hc
  | speaks body r said hw => exact hw.elsewhere hi hc
  | takesUp id t u hw free new charge eq =>
    rw [eq, hw.charged_takenUp charge]
    constructor
    · rintro (⟨hm, -⟩ | ⟨-, rfl, -⟩)
      · exact hm
      · dsimp only at hc
        omega
    · intro hm
      refine .inl ⟨hm, ?_⟩
      rintro rfl
      exact hi c hm hc
  | waits d dl t t' u hw own sending due charge free eq =>
    rw [eq, hw.charged_handedOn charge free]
    constructor
    · rintro ⟨-, hm | ⟨-, rfl⟩⟩
      · exact hm
      · exact absurd hc (hi d own)
    · intro hm
      refine ⟨?_, .inl hm⟩
      rintro rfl
      exact hi c hm hc

theorem after_elsewhere (hn : m.Numbered) {h : Happening} (hs : m.servedBy? h ≠ some k)
    (hk : k < m.pending.slots.length) (hc : c.slot = k) :
    (m.after e h).Charged j c ↔ m.Charged j c := by
  by_cases hh : ∃ i, h = .step i
  · obtain ⟨i, rfl⟩ := hh
    refine (step_effect hn i).elsewhere ?_ hk hc
    intro d hd hslot
    exact hs (hn.servedBy?_eq_some.mpr ⟨i, d, rfl, hd, hslot⟩)
  · exact (after_still hn fun i hi => hh ⟨i, hi⟩).charged j c

/-! ## The responses to one request -/

/-- The responses that a happening puts on the way, latest first. -/
def saidBy (e : Surroundings) (m : Machine) (h : Happening) : List Editor.Response :=
  (m.after e h).responses.take ((m.after e h).responses.length - m.responses.length)

/-- The responses put on the way by whoever served the request under slot `k`. -/
def repliesFor (e : Surroundings) (k : Nat) (tr : List (Machine × Happening)) :
    List Editor.Response :=
  tr.flatMap fun p => if p.1.servedBy? p.2 = some k then p.1.saidBy e p.2 else []

theorem saidBy_eq {h : Happening} {said : List Editor.Response}
    (hs : (m.after e h).responses = said ++ m.responses) : m.saidBy e h = said := by
  have hlen : (said ++ m.responses).length - m.responses.length = said.length := by
    rw [List.length_append]
    omega
  rw [saidBy, hs, hlen, List.take_left]

theorem saidBy_eq_nil {h : Happening} (hs : (m.after e h).responses = m.responses) :
    m.saidBy e h = [] := saidBy_eq hs

theorem repliesFor_cons (m : Machine) (h : Happening) (tr : List (Machine × Happening)) :
    repliesFor e k ((m, h) :: tr) =
      (if m.servedBy? h = some k then m.saidBy e h else []) ++ repliesFor e k tr := rfl

theorem Freed.run (h : m.Orderly) (hf : m.Freed k) (hk : k < m.pending.slots.length)
    (hs : List Happening) :
    (m.run e hs).Freed k ∧ repliesFor e k (trail e m hs) = [] := by
  induction hs generalizing m with
  | nil => exact ⟨hf, rfl⟩
  | cons a hs ih =>
    have hserved : m.servedBy? a ≠ some k := by
      intro hs
      obtain ⟨i, c, -, hc, hslot⟩ := h.numbered.servedBy?_eq_some.mp hs
      exact hf i c hc hslot
    have hf' : (m.after e a).Freed k := by
      intro i c hc hslot
      exact hf i c ((after_elsewhere h.numbered hserved hk hslot).mp hc) hslot
    have hk' := Nat.lt_of_lt_of_le hk (after_onward (e := e) h.numbered a).slots
    obtain ⟨hfreed, hnone⟩ := ih (h.after a) hf' hk'
    refine ⟨hfreed, ?_⟩
    rw [trail, repliesFor_cons, if_neg hserved, hnone]
    rfl

/-- The deadline is the one that there was, or the request has just been sent. -/
def Dated (e : Surroundings) (m : Machine) (old new : Option Timer) : Prop :=
  new = old ∨ old = none ∧ ∃ t, new = some t ∧
    t.due = m.now + e.settings.requestTimeout.millisCeil

/-- A step of the job in charge of a request: it goes on, or hands the request on to the job that
waits for the answer, or responds. -/
theorem Held.step (hn : m.Numbered) (h : m.Held j c) :
    (∃ i d, (m.step e j).Held i { c with deadline := d } ∧ m.saidBy e (.step j) = [] ∧
      Dated e m c.deadline d) ∨
    ((m.step e j).Freed c.slot ∧ ∃ r, Answers r c.id ∧
      Heard (m.step e j) r (m.saidBy e (.step j))) := by
  have hother {i : Nat} {d : Charge} (hd : m.Charged i d) (hslot : d.slot = c.slot) : i = j :=
    (h.sole i d hd hslot).1
  cases step_effect (e := e) hn j with
  | still hs =>
    refine .inl ⟨j, c.deadline, ⟨(hs.charged _ _).mpr h.charged, ?_⟩,
      saidBy_eq_nil hs.responses, .inl rfl⟩
    intro i d hd hslot
    exact h.sole i d ((hs.charged i d).mp hd) hslot
  | takesUp id t u hw free new charge eq => exact absurd h.charged (free c)
  | speaks body r said hw heard free => exact absurd h.charged (free c)
  | responds d r said hw own answers heard gone =>
    obtain rfl := hn.charged_unique h.charged own
    have hsaid : m.saidBy e (.step j) = said := saidBy_eq hw.responses
    refine .inr ⟨?_, r, answers, hsaid ▸ heard⟩
    intro i f hf hslot
    have hi : i = j := hother (hw.charged hf) hslot
    subst hi
    exact gone f hf
  | waits d dl t t' u hw own sending due charge free eq =>
    obtain rfl := hn.charged_unique h.charged own
    -- the job that waits for the answer is a new one
    have hj : j < u.born := by
      obtain ⟨v, hmem, -⟩ := h.charged
      exact Nat.lt_of_lt_of_le (hn.below _ hmem) hw.born
    have hiff (i : Nat) (f : Charge) : (m.step e j).Charged i f ↔
        i ≠ j ∧ (m.Charged i f ∨ (i = u.born ∧ f = { d with deadline := some dl })) := by
      rw [eq]
      exact hw.charged_handedOn charge free
    refine .inl ⟨u.born, some dl, ⟨?_, ?_⟩, ?_, .inr ⟨sending, dl, rfl, due⟩⟩
    · exact (hiff _ _).mpr ⟨by omega, .inr ⟨rfl, rfl⟩⟩
    · intro i f hf hslot
      obtain ⟨hne, hm | hnew⟩ := (hiff i f).mp hf
      · exact absurd (hother hm hslot) hne
      · exact hnew
    · refine saidBy_eq_nil ?_
      change (m.step e j).responses = m.responses
      rw [eq]
      exact hw.responses

theorem Held.after (h : m.Orderly) (held : m.Held j c) (a : Happening) :
    (∃ i d, (m.after e a).Held i { c with deadline := d } ∧
      (if m.servedBy? a = some c.slot then m.saidBy e a else []) = [] ∧
      Dated e m c.deadline d) ∨
    ((m.after e a).Freed c.slot ∧ ∃ r, Answers r c.id ∧
      Heard (m.after e a) r (if m.servedBy? a = some c.slot then m.saidBy e a else [])) := by
  by_cases hs : m.servedBy? a = some c.slot
  · obtain ⟨i, d, rfl, hd, hslot⟩ := h.numbered.servedBy?_eq_some.mp hs
    obtain ⟨rfl, rfl⟩ := held.sole i d hd hslot
    rw [if_pos hs]
    exact held.step h.numbered
  · have hiff {i : Nat} {d : Charge} (hslot : d.slot = c.slot) :
        (m.after e a).Charged i d ↔ m.Charged i d :=
      after_elsewhere h.numbered hs (h.below j c held.charged) hslot
    rw [if_neg hs]
    refine .inl ⟨j, c.deadline, ⟨(hiff rfl).mpr held.charged, ?_⟩, rfl, .inl rfl⟩
    intro i d hd hslot
    exact held.sole i d ((hiff hslot).mp hd) hslot

/-- From the time when a job is in charge of a request either some job still is and there has been
no response, or nobody is any more and there has been one. -/
theorem Held.run (h : m.Orderly) (held : m.Held j c)
    (hdue : ∀ t ∈ c.deadline, t.due ≤ m.now + e.settings.requestTimeout.millisCeil)
    (hs : List Happening) :
    (∃ i d, (m.run e hs).Held i { c with deadline := d } ∧
      repliesFor e c.slot (trail e m hs) = [] ∧
      (∀ t ∈ d, t.due ≤ (m.run e hs).now + e.settings.requestTimeout.millisCeil) ∧
      ∀ t ∈ c.deadline, d = some t) ∨
    ((m.run e hs).Freed c.slot ∧ ∃ r, Answers r c.id ∧
      Heard (m.run e hs) r (repliesFor e c.slot (trail e m hs))) := by
  induction hs generalizing m j c with
  | nil => exact .inl ⟨j, c.deadline, held, rfl, hdue, fun t ht => ht⟩
  | cons a hs ih =>
    have honward := after_onward (e := e) h.numbered a
    rw [trail, repliesFor_cons]
    rcases held.after (e := e) h a with ⟨i, d, hheld, hnone, hdated⟩ | ⟨hfreed, r, hr, hheard⟩
    · have hdue' : ∀ t ∈ d, t.due ≤ (m.after e a).now + e.settings.requestTimeout.millisCeil := by
        intro t ht
        have hnow := honward.now
        rcases hdated with rfl | ⟨-, t', rfl, hset⟩
        · have hle := hdue t ht
          omega
        · obtain rfl := Option.some.inj ht
          omega
      rw [hnone, List.nil_append]
      rcases ih (h.after a) hheld hdue' with ⟨i', d', hheld', hnone', hd', hkept⟩ | hdone
      · refine .inl ⟨i', d', hheld', hnone', hd', fun t ht => hkept t ?_⟩
        rcases hdated with rfl | ⟨hfree, -⟩
        · exact ht
        · rw [hfree] at ht
          cases ht
      · exact .inr hdone
    · have hk := Nat.lt_of_lt_of_le (h.below j c held.charged) honward.slots
      obtain ⟨hfreed', hnone⟩ := hfreed.run (h.after a) hk hs
      refine .inr ⟨hfreed', r, hr, ?_⟩
      rw [hnone, List.append_nil]
      refine hheard.imp (fun hsaid => hsaid) fun ⟨hsaid, ho⟩ => ⟨hsaid, fun ho' => ho ?_⟩
      exact (run_onward (h.after a) hs).outlet ho'

/-! ## Reading a request -/

def Sends (m : Machine) (k : Nat) : Prop := ∃ i c, m.Charged i c ∧ c.slot = k ∧ c.deadline = none

section Heard

variable {r : Editor.Response} {said : List Editor.Response}

end Heard

end Machine

end ShipBridge.Relay
