import ShipBridge.Retry
import Mathlib.Data.Nat.Find
import Mathlib.Order.Bounds.Basic
import Mathlib.Tactic.Common

/-!
# The loop around a retried operation

The loop counts its retries in a word of 32 bits. One pass calls the operation, and then returns what
it answered or sleeps until the next pass; a sum that does not fit the word would end it, and so does
a delay that is no duration. The first call that is final whatever came before it tells everything
the loop does: the calls before it are each followed by a sleep, and that one by nothing.
-/

namespace ShipBridge.Retry

variable {ε α : Type}

/-- Is call number `k`, counted from one, the last one whatever came before it? -/
def Final (limit : Nat) (retryable : ε → Bool) (outcomes : Nat → Except ε α) (k : Nat) : Prop :=
  1 ≤ k ∧ ((∃ a, outcomes (k - 1) = .ok a) ∨
    (∃ e, outcomes (k - 1) = .error e ∧ retryable e = false) ∨ limit ≤ k)

def retries (delays : List Duration) : List Deed :=
  delays.flatMap fun d => [.called, .slept d]

theorem count_retries (delays : List Duration) :
    (retries delays).count Deed.called = delays.length := by
  induction delays with
  | nil => rfl
  | cons d delays ih =>
    rw [retries, List.flatMap_cons, ← retries, List.count_append, ih, List.length_cons]
    exact Nat.add_comm _ _

theorem retries_concat (delays : List Duration) (d : Duration) :
    retries (delays ++ [d]) = retries delays ++ [Deed.called] ++ [Deed.slept d] := by
  simp [retries]

theorem next?_of_lt {n : UInt32} (h : n.toNat + 1 < UInt32.size) :
    ∃ m, next? n = some m ∧ m.toNat = n.toNat + 1 := by
  refine ⟨n + 1, if_pos h, ?_⟩
  rw [UInt32.toNat_add, UInt32.toNat_one]
  exact Nat.mod_eq_of_lt h

variable (p : Policy) (retryable : ε → Bool) (factors : Nat → Float)
  (outcomes : Nat → Except ε α)

theorem exists_first_final :
    ∃ n, IsLeast {k | Final p.maxAttempts retryable outcomes k} n := by
  classical
  have h : ∃ k, Final p.maxAttempts retryable outcomes k :=
    ⟨max 1 p.maxAttempts, le_max_left _ _, .inr (.inr (le_max_right _ _))⟩
  exact ⟨Nat.find h, Nat.find_spec h, fun _ hk => Nat.find_min' h hk⟩

variable {p retryable factors outcomes} {n : Nat}

theorem error_of_lt (hn : IsLeast {k | Final p.maxAttempts retryable outcomes k} n) {k : Nat}
    (hk : k + 1 < n) :
    k + 1 < p.maxAttempts ∧ ∃ e, outcomes k = .error e ∧ retryable e = true := by
  have hf : ¬ Final p.maxAttempts retryable outcomes (k + 1) := fun h => hk.not_ge (hn.2 h)
  rw [Final, Nat.add_sub_cancel] at hf
  push Not at hf
  obtain ⟨hok, herr, hlim⟩ := hf (Nat.le_add_left 1 k)
  cases ho : outcomes k with
  | ok a => exact absurd ho (hok a)
  | error e => exact ⟨hlim, e, rfl, by simpa using herr e ho⟩

theorem first_final_lt (hn : IsLeast {k | Final p.maxAttempts retryable outcomes k} n)
    (hp : p.maxAttempts < UInt32.size) : n < UInt32.size :=
  lt_of_le_of_lt (hn.2 ⟨le_max_left 1 _, .inr (.inr (le_max_right 1 _))⟩)
    (max_lt (by decide) hp)

/-- The loop stands before its next call after a sleep of each of the delays. -/
structure Loop.Retried (delays : List Duration) (l : Loop ε α) : Prop where
  counter : l.counter.toNat = delays.length
  deeds : l.deeds = retries delays
  running : l.ending = none

namespace Loop.Retried

variable {l : Loop ε α} {delays : List Duration}

theorem initial : Loop.Retried [] ({} : Loop ε α) := ⟨rfl, rfl, rfl⟩

variable (factors)

theorem pass_of_lt (h : l.Retried delays)
    (hn : IsLeast {k | Final p.maxAttempts retryable outcomes k} n)
    (hp : p.maxAttempts < UInt32.size) (hk : delays.length + 1 < n) :
    match p.drawn? delays.length (factors delays.length) with
    | some d => (l.pass p retryable factors outcomes).Retried (delays ++ [d])
    | none => l.pass p retryable factors outcomes =
        ⟨l.counter, retries delays ++ [Deed.called], some .undelayed⟩ := by
  obtain ⟨hlimit, e, he, hretry⟩ := error_of_lt hn hk
  have hsize : l.counter.toNat + 1 < UInt32.size := by rw [h.counter]; omega
  obtain ⟨m, hm, hmn⟩ := next?_of_lt hsize
  have hgo : ¬ p.maxAttempts ≤ m.toNat := by rw [hmn, h.counter]; omega
  have hpass : l.pass p retryable factors outcomes =
      match p.drawn? delays.length (factors delays.length) with
      | some d => { l with counter := m, deeds := retries (delays ++ [d]) }
      | none => ⟨l.counter, retries delays ++ [Deed.called], some .undelayed⟩ := by
    simp only [Loop.pass, h.running, h.deeds, h.counter, count_retries, he, hretry, hm, if_neg hgo,
      Option.isSome_none, Bool.not_true, Bool.false_eq_true, if_false, retries_concat]
    cases p.drawn? delays.length (factors delays.length) <;> rfl
  rw [hpass]
  cases p.drawn? delays.length (factors delays.length) with
  | none => rfl
  | some d => exact ⟨by rw [hmn, h.counter, List.length_append]; rfl, rfl, h.running⟩

theorem pass_of_eq (h : l.Retried delays)
    (hn : IsLeast {k | Final p.maxAttempts retryable outcomes k} n)
    (hp : p.maxAttempts < UInt32.size) (hk : delays.length + 1 = n) :
    l.pass p retryable factors outcomes =
      ⟨l.counter, retries delays ++ [Deed.called], some (.returned (outcomes delays.length))⟩ := by
  have hsize : l.counter.toNat + 1 < UInt32.size := by
    rw [h.counter, hk]
    exact first_final_lt hn hp
  obtain ⟨m, hm, hmn⟩ := next?_of_lt hsize
  obtain ⟨-, hfinal⟩ := hn.1
  rw [← hk, Nat.add_sub_cancel] at hfinal
  simp only [Loop.pass, h.running, h.deeds, h.counter, count_retries, hm, reduceCtorEq, and_false,
    if_false, Option.isSome_none, Bool.false_eq_true]
  cases ho : outcomes delays.length with
  | ok a => rfl
  | error e =>
    cases hr : retryable e with
    | false => simp [hr]
    | true =>
      have hlimit : p.maxAttempts ≤ m.toNat := by
        rw [hmn, h.counter]
        rcases hfinal with ⟨a, ha⟩ | ⟨e', he', hr'⟩ | hlimit
        · rw [ho] at ha
          cases ha
        · rw [ho] at he'
          cases he'
          rw [hr] at hr'
          cases hr'
        · exact hlimit
      simp [hlimit]

end Loop.Retried

theorem Loop.pass_of_ended {l : Loop ε α} (h : l.ending.isSome) :
    l.pass p retryable factors outcomes = l := if_pos h

theorem Loop.passes_of_ended {l : Loop ε α} (h : l.ending.isSome) (k : Nat) :
    (Loop.pass p retryable factors outcomes)^[k] l = l :=
  Function.iterate_fixed (Loop.pass_of_ended h) k

variable (factors)

/-- Every pass but the last one is a retry; the loop ends with the `n`-th at the latest, and no sum
overflows. -/
theorem passes_cases (hn : IsLeast {k | Final p.maxAttempts retryable outcomes k} n)
    (hp : p.maxAttempts < UInt32.size) (k : Nat) :
    (∃ delays : List Duration, delays.length = k ∧ k < n ∧
      ((Loop.pass p retryable factors outcomes)^[k] {}).Retried delays) ∨
    ∃ e, ((Loop.pass p retryable factors outcomes)^[k] {}).ending = some e ∧ e ≠ .overflowed := by
  induction k with
  | zero => exact .inl ⟨[], rfl, hn.1.1, .initial⟩
  | succ k ih =>
    rw [Function.iterate_succ_apply']
    rcases ih with ⟨delays, hlen, hkn, hl⟩ | ⟨e, he, hne⟩
    · rcases Nat.lt_or_eq_of_le (show delays.length + 1 ≤ n by omega) with hlt | heq
      · have hpass := hl.pass_of_lt factors hn hp hlt
        cases hd : p.drawn? delays.length (factors delays.length) with
        | none =>
          rw [hd] at hpass
          exact .inr ⟨.undelayed, by rw [hpass], nofun⟩
        | some d =>
          rw [hd] at hpass
          exact .inl ⟨delays ++ [d], by simp [hlen], by omega, hpass⟩
      · exact .inr ⟨.returned (outcomes delays.length), by rw [hl.pass_of_eq factors hn hp heq], nofun⟩
    · rw [Loop.pass_of_ended (by rw [he]; rfl)]
      exact .inr ⟨e, he, hne⟩

variable {factors}

/-- As long as the delays are durations, each pass sleeps for the next of them. -/
theorem retried_take (hn : IsLeast {k | Final p.maxAttempts retryable outcomes k} n)
    (hp : p.maxAttempts < UInt32.size) {delays : List Duration}
    (hd : ((List.range (n - 1)).map fun k => p.drawn? k (factors k)) = delays.map some) {k : Nat}
    (hk : k < n) :
    ((Loop.pass p retryable factors outcomes)^[k] {}).Retried (delays.take k) := by
  have hlen : n - 1 = delays.length := by simpa using congrArg List.length hd
  induction k with
  | zero => exact .initial
  | succ k ih =>
    rw [Function.iterate_succ_apply']
    have hkd : k < delays.length := by omega
    have htake : (delays.take k).length = k := by rw [List.length_take]; omega
    have hpass := (ih (by omega)).pass_of_lt factors hn hp (by omega)
    have hdraw : p.drawn? k (factors k) = some delays[k] := by
      have h := congrArg (·[k]?) hd
      simpa [List.getElem?_range (show k < n - 1 by omega), List.getElem?_eq_getElem hkd] using h
    rw [htake, hdraw] at hpass
    rwa [List.take_succ_eq_append_getElem hkd]

theorem stops_iff (k : Nat) :
    stops p.maxAttempts retryable k (outcomes k) = true ↔
      Final p.maxAttempts retryable outcomes (k + 1) := by
  rw [Final, Nat.add_sub_cancel]
  cases outcomes k <;> simp [stops]

/-- The run that is told by numbers alone calls and waits as the loop does. -/
theorem attempts_eq (hn : IsLeast {k | Final p.maxAttempts retryable outcomes k} n) {k : Nat}
    (hk : k < n) :
    attempts p.maxAttempts retryable outcomes k =
      ⟨outcomes (n - 1), List.range' k (n - 1 - k)⟩ := by
  obtain ⟨m, hm⟩ : ∃ m, n = k + 1 + m := Nat.exists_eq_add_of_le hk
  induction m generalizing k with
  | zero =>
    subst hm
    have hstop : stops p.maxAttempts retryable k (outcomes k) = true := (stops_iff k).2 hn.1
    rw [attempts]
    simp [hstop]
  | succ m ih =>
    have hlt : k + 1 < n := by omega
    have hgo : stops p.maxAttempts retryable k (outcomes k) = false :=
      Bool.eq_false_iff.2 fun h => hlt.not_ge (hn.2 (stops_iff k |>.1 h))
    have hlimit := (error_of_lt hn hlt).1
    rw [attempts, ih hlt (by omega)]
    have hrange : List.range' k (n - 1 - k) = k :: List.range' (k + 1) (n - 1 - (k + 1)) := by
      rw [show n - 1 - k = n - 1 - (k + 1) + 1 by omega, List.range'_succ]
    simp [hgo, hlimit, hrange]

/-- A retried operation is called until the first call that is final, whose outcome is returned;
after each call before it the loop sleeps for the delay of that retry, and after it not at all. No
policy makes the counter overflow, and none keeps the loop going for more passes than calls. -/
theorem called_until_final (p : Policy) (retryable : ε → Bool) (factors : Nat → Float)
    (outcomes : Nat → Except ε α) (hp : p.maxAttempts < UInt32.size) :
    ∃ n, IsLeast {k | Final p.maxAttempts retryable outcomes k} n ∧
      attempts p.maxAttempts retryable outcomes = ⟨outcomes (n - 1), List.range (n - 1)⟩ ∧
      (∀ passes, ((Loop.pass p retryable factors outcomes)^[passes] {}).ending ≠
        some .overflowed) ∧
      (∀ passes, n ≤ passes →
        ((Loop.pass p retryable factors outcomes)^[passes] {}).ending ≠ none) ∧
      ∀ delays : List Duration,
        ((List.range (n - 1)).map fun k => p.drawn? k (factors k)) = delays.map some →
        ∀ passes, n ≤ passes →
          ((Loop.pass p retryable factors outcomes)^[passes] {}).deeds =
            retries delays ++ [Deed.called] ∧
          ((Loop.pass p retryable factors outcomes)^[passes] {}).ending =
            some (.returned (outcomes (n - 1))) := by
  obtain ⟨n, hn⟩ := exists_first_final p retryable outcomes
  have hpos : 1 ≤ n := hn.1.1
  refine ⟨n, hn, ?_, fun k => ?_, fun k hk => ?_, fun delays hd k hk => ?_⟩
  · rw [attempts_eq hn hpos, Nat.sub_zero, List.range_eq_range']
  · rcases passes_cases factors hn hp k with ⟨delays, -, -, hl⟩ | ⟨e, he, hne⟩
    · rw [hl.running]
      nofun
    · rw [he]
      exact fun h => hne (Option.some.inj h)
  · rcases passes_cases factors hn hp k with ⟨delays, -, hkn, -⟩ | ⟨e, he, -⟩
    · omega
    · rw [he]
      nofun
  · have hlen : n - 1 = delays.length := by simpa using congrArg List.length hd
    have hl := retried_take hn hp hd (show n - 1 < n by omega)
    rw [hlen, List.take_length] at hl
    have hlast := hl.pass_of_eq factors hn hp (by omega)
    obtain ⟨more, rfl⟩ : ∃ more, k = more + (delays.length + 1) := ⟨k - n, by omega⟩
    rw [Function.iterate_add_apply, Function.iterate_succ_apply', hlast, Loop.passes_of_ended rfl,
      hlen]
    exact ⟨rfl, rfl⟩

/-- Two failures, and successes from then on. -/
def failTwice (k : Nat) : Except Nat Nat := if k < 2 then .error k else .ok k

theorem isLeast_final_failTwice : IsLeast {k | Final 3 (fun _ => true) failTwice k} 3 := by
  refine ⟨⟨by decide, .inl ⟨2, rfl⟩⟩, fun k hk => ?_⟩
  obtain ⟨hpos, ⟨a, ha⟩ | ⟨e, -, he⟩ | hlimit⟩ := hk
  · by_contra hlt
    have hk2 : k - 1 < 2 := by omega
    simp [failTwice, hk2] at ha
  · cases he
  · exact hlimit

theorem called_until_final_failTwice :
    let p : Policy := { jitter := false }
    (p.maxAttempts < UInt32.size ∧ p.drawn? 0 1 = some (.ofSeconds 1) ∧
      p.drawn? 1 1 = some (.ofSeconds 2)) ∧
    IsLeast {k | Final p.maxAttempts (fun _ => true) failTwice k} 3 ∧
    ∀ passes, 3 ≤ passes →
      ((Loop.pass p (fun _ => true) (fun _ => 1) failTwice)^[passes] {}).deeds =
        [.called, .slept (.ofSeconds 1), .called, .slept (.ofSeconds 2), .called] ∧
      ((Loop.pass p (fun _ => true) (fun _ => 1) failTwice)^[passes] {}).ending =
        some (.returned (.ok 2)) := by
  intro p
  have h₀ : p.drawn? 0 1 = some (.ofSeconds 1) := by decide +kernel
  have h₁ : p.drawn? 1 1 = some (.ofSeconds 2) := by decide +kernel
  obtain ⟨n, hn, -, -, -, hrun⟩ :=
    called_until_final p (fun _ => true) (fun _ => 1) failTwice (by decide)
  obtain rfl := hn.unique isLeast_final_failTwice
  have hdelays : ((List.range 2).map fun k => p.drawn? k 1) =
      [Duration.ofSeconds 1, .ofSeconds 2].map some := by
    simp only [List.range_succ, List.range_zero, List.nil_append, List.cons_append, List.map_cons,
      List.map_nil, h₀, h₁]
  exact ⟨⟨by decide, h₀, h₁⟩, hn, hrun _ hdelays⟩

/-- A delay that would be negative is no duration: the loop ends at its second retry, and the final
call is never made. -/
theorem negative_growth_undelayed :
    let p : Policy := { baseDelay := .ofMillis 100, growth := -1.0, jitter := false }
    IsLeast {k | Final p.maxAttempts (fun _ => true) failTwice k} 3 ∧
    ∀ passes, ((Loop.pass p (fun _ => true) (fun _ => 1) failTwice)^[passes] {}).ending ≠
      some (.returned (failTwice (3 - 1))) := by
  intro p
  refine ⟨isLeast_final_failTwice, fun passes => ?_⟩
  have h₀ : p.drawn? 0 1 = some (.ofMillis 100) := by decide +kernel
  have h₁ : p.drawn? 1 1 = none := by decide +kernel
  have hfirst := Loop.Retried.initial.pass_of_lt (p := p) (fun _ => 1)
    isLeast_final_failTwice (by decide) (by decide)
  rw [List.length_nil, h₀] at hfirst
  have hsecond := hfirst.pass_of_lt (p := p) (fun _ => 1) isLeast_final_failTwice
    (by decide) (by decide)
  rw [List.length_append, List.length_nil, List.length_singleton, h₁] at hsecond
  match passes with
  | 0 => exact nofun
  | 1 => exact fun h => nomatch hfirst.running.symm.trans h
  | k + 2 =>
    rw [Function.iterate_add_apply, Function.iterate_succ_apply', Function.iterate_one, hsecond,
      Loop.passes_of_ended rfl]
    exact nofun

end ShipBridge.Retry
