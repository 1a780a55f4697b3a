import Mathlib.Algebra.Order.Field.Power
import Mathlib.Data.Rat.Floor
import Mathlib.Tactic.Common
import Mathlib.Tactic.Linarith
import Mathlib.Tactic.NormNum
import Mathlib.Tactic.Positivity
import ShipBridge.Retry

/-!
# The delays that a backoff gives

The delay before a retry is computed here in exact rationals and then rounded to the nearest
nanosecond, so that nothing but the rule itself decides how the delays compare. The rule takes a
power of the growth whose exponent is the number of the retry, read as a signed word of 32 bits.
While that number is below `2^31` the delays grow from the base delay, or stay at the greatest one.
The number `2^31` is read as the least negative exponent: from there on the delays start over from
next to nothing, and grow towards the base delay again without ever passing it.

A backoff gives as many delays in a row as its policy allows attempts, then none until it is reset.
-/

namespace ShipBridge

/-! ## Exact arithmetic -/

/-- The nearest whole number, a tie going to the even one. -/
def nearest (x : ℚ) : ℤ :=
  if 2 * Int.fract x < 1 ∨ (2 * Int.fract x = 1 ∧ Even ⌊x⌋) then ⌊x⌋ else ⌊x⌋ + 1

theorem floor_le_nearest (x : ℚ) : ⌊x⌋ ≤ nearest x := by
  unfold nearest
  split_ifs <;> omega

theorem nearest_le_floor_add_one (x : ℚ) : nearest x ≤ ⌊x⌋ + 1 := by
  unfold nearest
  split_ifs <;> omega

theorem nearest_mono {x y : ℚ} (h : x ≤ y) : nearest x ≤ nearest y := by
  rcases (Int.floor_mono h).lt_or_eq with hlt | heq
  · calc nearest x ≤ ⌊x⌋ + 1 := nearest_le_floor_add_one x
      _ ≤ ⌊y⌋ := hlt
      _ ≤ nearest y := floor_le_nearest y
  · have hfract : Int.fract x ≤ Int.fract y := by
      rw [Int.fract, Int.fract, heq]
      exact sub_le_sub_right h _
    unfold nearest
    rw [heq]
    split_ifs with hx hy hy
    · exact le_rfl
    · omega
    · -- if `y` is rounded down then so is `x`
      refine absurd ?_ hx
      rcases hfract.lt_or_eq with hlt | hsame
      · rcases hy with hy | ⟨hy, -⟩ <;> exact .inl (by linarith)
      · rwa [hsame]
    · exact le_rfl

theorem nearest_of_lt_half {x : ℚ} (h : 0 ≤ x) (hx : 2 * x < 1) : nearest x = 0 := by
  have hfloor : ⌊x⌋ = 0 := Int.floor_eq_zero_iff.mpr ⟨h, by linarith⟩
  have hfract : Int.fract x = x := by rw [Int.fract, hfloor, Int.cast_zero, sub_zero]
  rw [nearest, hfract, hfloor, if_pos (.inl hx)]

@[simp] theorem nearest_natCast (n : ℕ) : nearest n = n := by
  simp [nearest]

namespace Duration

def exact (d : Duration) : ℚ := d.nanos / 10 ^ 9

/-- The duration nearest to a number of seconds. Negative numbers and numbers from `2^64` on are no
durations. -/
def ofExact? (seconds : ℚ) : Option Duration :=
  if 0 ≤ seconds ∧ seconds < 2 ^ 64 then some ⟨(nearest (seconds * 10 ^ 9)).toNat⟩ else none

theorem exact_mul (d : Duration) : d.exact * 10 ^ 9 = d.nanos := by
  rw [exact, div_mul_cancel₀ _ (by norm_num)]

end Duration

namespace Retry

def rationals : Arithmetic ℚ where
  one := 1
  mul := (· * ·)
  inverse := (·⁻¹)
  min := min

@[simp] theorem one_rationals : rationals.one = 1 := rfl

@[simp] theorem mul_rationals (x y : ℚ) : rationals.mul x y = x * y := rfl

@[simp] theorem inverse_rationals (x : ℚ) : rationals.inverse x = x⁻¹ := rfl

@[simp] theorem min_rationals (x y : ℚ) : rationals.min x y = min x y := rfl

/-- Repeated squaring yields the power, given a step for each binary digit of the exponent. -/
theorem powerFrom_rationals (product square : ℚ) {n fuel : ℕ} (h : n < 2 ^ fuel) :
    rationals.powerFrom product square n fuel = product * square ^ n := by
  induction fuel generalizing product square n with
  | zero =>
    obtain rfl : n = 0 := by simpa using h
    simp [Arithmetic.powerFrom]
  | succ fuel ih =>
    have hhalf : n / 2 < 2 ^ fuel := by omega
    have hn : n = 2 * (n / 2) + n % 2 := (Nat.div_add_mod n 2).symm
    have hsplit : product * square ^ n =
        (if n % 2 = 1 then product * square else product) * (square * square) ^ (n / 2) := by
      rcases Nat.mod_two_eq_zero_or_one n with hr | hr
      · conv_lhs => rw [hn, hr, add_zero, pow_mul, pow_two]
        rw [if_neg (by omega)]
      · conv_lhs => rw [hn, hr, pow_succ, pow_mul, pow_two]
        rw [if_pos hr]
        ring
    rw [hsplit, Arithmetic.powerFrom]
    simp only [mul_rationals, ih _ _ hhalf]
    by_cases hzero : n / 2 = 0
    · rw [if_pos hzero, hzero, pow_zero, mul_one]
    · rw [if_neg hzero]

theorem power_rationals (x : ℚ) {n : ℤ} (h : n.natAbs < 2 ^ 33) : rationals.power x n = x ^ n := by
  simp only [Arithmetic.power, powerFrom_rationals _ _ h, one_rationals, one_mul,
    inverse_rationals]
  split_ifs with hn
  · rw [← zpow_natCast, ← zpow_neg, Int.ofNat_natAbs_of_nonpos hn.le, neg_neg]
  · rw [← zpow_natCast, Int.natAbs_of_nonneg (not_lt.mp hn)]

/-! ## One delay -/

/-- The number that a double stands for, if it is finite. -/
def number? (x : Float) : Option ℚ :=
  match x.toModel.unpack with
  | .finite sign mantissa exponent _ => some (sign.apply mantissa * 2 ^ exponent)
  | .zero _ => some 0
  | .infinity _ | .notANumber => none

/-- The delay before retry number `attempt`, as it comes out in exact arithmetic; `factor` is drawn
for the jitter, if there is to be any. -/
def Policy.exactly? (p : Policy) (attempt : ℕ) (factor : ℚ) : Option Duration := do
  let growth ← number? p.growth
  let cap := p.maxDelay.exact
  let seconds := rationals.delay p.baseDelay.exact cap growth attempt
  Duration.ofExact? (if p.jitter then min (seconds * factor) cap else seconds)

theorem asSigned_of_lt {n : ℕ} (h : n < 2 ^ 31) : asSigned n = n :=
  Int.bmod_eq_of_le (by omega) (by omega)

theorem asSigned_of_le {n : ℕ} (h : 2 ^ 31 ≤ n) (hn : n < 2 ^ 32) : asSigned n = n - 2 ^ 32 := by
  have hless : Int.bmod (n - (0x100000000 : ℕ)) 0x100000000 = n - (0x100000000 : ℕ) :=
    Int.bmod_eq_of_le (by omega) (by omega)
  calc asSigned n = Int.bmod (n - (0x100000000 : ℕ)) 0x100000000 := (Int.sub_bmod_right _ _).symm
    _ = n - (0x100000000 : ℕ) := hless
    _ = n - 2 ^ 32 := by norm_num

theorem natAbs_asSigned_lt (n : ℕ) : (asSigned n).natAbs < 2 ^ 33 := by
  have hlow := Int.le_bmod (x := n) (m := 0x100000000) (by norm_num)
  have hhigh := Int.bmod_lt (x := n) (m := 0x100000000) (by norm_num)
  unfold asSigned
  omega

def Policy.span (p : Policy) (growth : ℚ) (attempt : ℕ) : ℚ :=
  min (p.baseDelay.nanos * growth ^ asSigned attempt) p.maxDelay.nanos

section Span

variable (p : Policy) {growth : ℚ} {k l : ℕ}

theorem delay_eq_span (growth : ℚ) (k : ℕ) :
    rationals.delay p.baseDelay.exact p.maxDelay.exact growth k * 10 ^ 9 = p.span growth k := by
  rw [Arithmetic.delay, power_rationals _ (natAbs_asSigned_lt k), min_rationals, mul_rationals,
    min_mul_of_nonneg _ _ (by norm_num), mul_right_comm, Duration.exact_mul, Duration.exact_mul]
  rfl

theorem span_le_cap (growth : ℚ) (k : ℕ) : p.span growth k ≤ p.maxDelay.nanos := min_le_right _ _

variable (hone : 1 ≤ growth)

include hone

theorem span_nonneg (k : ℕ) : 0 ≤ p.span growth k := by
  unfold Policy.span
  positivity

theorem span_mono (h : asSigned k ≤ asSigned l) : p.span growth k ≤ p.span growth l := by
  have hpow : growth ^ asSigned k ≤ growth ^ asSigned l := zpow_le_zpow_right₀ hone h
  rw [Policy.span, Policy.span]
  exact min_le_min_right _ (mul_le_mul_of_nonneg_left hpow (Nat.cast_nonneg _))

theorem le_span (h : 0 ≤ asSigned k) :
    min (p.baseDelay.nanos : ℚ) p.maxDelay.nanos ≤ p.span growth k := by
  have hpow : 1 ≤ growth ^ asSigned k := one_le_zpow₀ hone h
  rw [Policy.span]
  exact min_le_min_right _ (le_mul_of_one_le_right (Nat.cast_nonneg _) hpow)

theorem span_le (h : asSigned k ≤ 0) :
    p.span growth k ≤ min (p.baseDelay.nanos : ℚ) p.maxDelay.nanos := by
  have hpow : growth ^ asSigned k ≤ 1 := zpow_le_one_of_nonpos₀ hone h
  rw [Policy.span]
  exact min_le_min_right _ (mul_le_of_le_one_right (Nat.cast_nonneg _) hpow)

end Span

/-- A policy without jitter whose growth is a number from one on, and whose greatest delay and
number of attempts fit their words. -/
structure Policy.Grows (p : Policy) (growth : ℚ) : Prop where
  number : number? p.growth = some growth
  one_le : 1 ≤ growth
  plain : p.jitter = false
  cap : p.maxDelay.nanos < 2 ^ 64 * 10 ^ 9
  limit : p.maxAttempts < 2 ^ 32

def Policy.rounded (p : Policy) (growth : ℚ) (attempt : ℕ) : Duration :=
  ⟨(nearest (p.span growth attempt)).toNat⟩

theorem rounded_le_cap (p : Policy) (growth : ℚ) (k : ℕ) :
    (p.rounded growth k).nanos ≤ p.maxDelay.nanos := by
  have hle := nearest_mono (span_le_cap p growth k)
  rw [nearest_natCast] at hle
  exact Int.toNat_le.mpr hle

namespace Policy.Grows

variable {p : Policy} {growth : ℚ} (h : p.Grows growth) {k l : ℕ}

include h

theorem exactly?_eq (k : ℕ) (factor : ℚ) : p.exactly? k factor = some (p.rounded growth k) := by
  have hspan := delay_eq_span p growth k
  have hnonneg := span_nonneg p h.one_le k
  have hcap := span_le_cap p growth k
  have hlt : (p.maxDelay.nanos : ℚ) < 2 ^ 64 * 10 ^ 9 := by exact_mod_cast h.cap
  simp only [exactly?, h.number, h.plain, Option.bind_eq_bind, Option.bind_some,
    Bool.false_eq_true, if_false]
  rw [Duration.ofExact?, if_pos, hspan, rounded]
  constructor <;> linarith

theorem rounded_mono (hkl : asSigned k ≤ asSigned l) :
    (p.rounded growth k).nanos ≤ (p.rounded growth l).nanos :=
  Int.toNat_le_toNat (nearest_mono (span_mono p h.one_le hkl))

theorem le_rounded (hk : 0 ≤ asSigned k) :
    min p.baseDelay.nanos p.maxDelay.nanos ≤ (p.rounded growth k).nanos := by
  have hle := nearest_mono (le_span p h.one_le hk)
  rw [← Nat.cast_min, nearest_natCast] at hle
  exact (Int.le_toNat ((Int.natCast_nonneg _).trans hle)).mpr hle

theorem rounded_le (hk : asSigned k ≤ 0) :
    (p.rounded growth k).nanos ≤ min p.baseDelay.nanos p.maxDelay.nanos := by
  have hle := nearest_mono (span_le p h.one_le hk)
  rw [← Nat.cast_min, nearest_natCast] at hle
  exact Int.toNat_le.mpr hle

end Policy.Grows

/-! ## A backoff under calls -/

inductive Call where
  | next
  | reset
deriving DecidableEq, Repr

inductive Reply where
  | delay (d : Duration)
  | exhausted
  | undelayed
deriving DecidableEq, Repr

def Backoff.reply (p : Policy) (factors : ℕ → ℚ) (b : Backoff) : Reply :=
  match (b.next p.maxAttempts).1 with
  | none => .exhausted
  | some attempt => (p.exactly? attempt (factors attempt)).elim .undelayed .delay

/-- A backoff, and the delays that it has given since the last reset. -/
structure Course where
  backoff : Backoff := {}
  delays : List Duration := []

def Course.after (p : Policy) (factors : ℕ → ℚ) (c : Course) : Call → Course
  | .reset => { backoff := c.backoff.reset }
  | .next =>
    match c.backoff.reply p factors with
    | .delay d => ⟨(c.backoff.next p.maxAttempts).2, c.delays ++ [d]⟩
    | .exhausted | .undelayed => c

def Course.run (p : Policy) (factors : ℕ → ℚ) (calls : List Call) : Course :=
  calls.foldl (Course.after p factors) {}

theorem Course.run_concat (p : Policy) (factors : ℕ → ℚ) (calls : List Call) (call : Call) :
    Course.run p factors (calls ++ [call]) = (Course.run p factors calls).after p factors call :=
  List.foldl_concat _ _ _ _

/-- The delays given are those of the retries numbered from zero, one for each failure. -/
structure Course.Paced (p : Policy) (growth : ℚ) (c : Course) : Prop where
  delays : c.delays = (List.range c.backoff.failures).map (p.rounded growth)
  failures_le : c.backoff.failures ≤ p.maxAttempts

section Run

variable {p : Policy} {growth : ℚ} (h : p.Grows growth) (factors : ℕ → ℚ)

include h

theorem reply_eq (b : Backoff) : b.reply p factors =
    if p.maxAttempts ≤ b.failures then .exhausted else .delay (p.rounded growth b.failures) := by
  unfold Backoff.reply Backoff.next
  split_ifs with hb
  · rfl
  · simp only [h.exactly?_eq, Option.elim]

theorem Course.Paced.after {c : Course} (hc : c.Paced p growth) (call : Call) :
    (c.after p factors call).Paced p growth := by
  cases call with
  | reset => exact ⟨rfl, Nat.zero_le _⟩
  | next =>
    rw [Course.after, reply_eq h]
    by_cases hb : p.maxAttempts ≤ c.backoff.failures
    · rwa [if_pos hb]
    · rw [if_neg hb]
      simp only [Backoff.next, if_neg hb]
      refine ⟨?_, Nat.not_le.mp hb⟩
      rw [hc.delays, List.range_succ, List.map_append]
      rfl

theorem paced_run (calls : List Call) : (Course.run p factors calls).Paced p growth := by
  induction calls using List.reverseRecOn with
  | nil => exact ⟨rfl, Nat.zero_le _⟩
  | append_singleton calls call ih =>
    rw [Course.run_concat]
    exact ih.after h factors call

theorem failures_replicate {n : ℕ} (hn : n ≤ p.maxAttempts) :
    (Course.run p factors (List.replicate n .next)).backoff.failures = n := by
  induction n with
  | zero => rfl
  | succ n ih =>
    have hlt : ¬ p.maxAttempts ≤ n := by omega
    have hfailures := ih (by omega)
    rw [List.replicate_succ', Course.run_concat, Course.after, reply_eq h, hfailures, if_neg hlt]
    simp only [Backoff.next, hfailures, if_neg hlt]

end Run

theorem Course.Paced.getElem?_delays {p : Policy} {growth : ℚ} {c : Course} (hc : c.Paced p growth)
    {i : ℕ} {d : Duration} :
    c.delays[i]? = some d ↔ i < c.backoff.failures ∧ p.rounded growth i = d := by
  rw [hc.delays, List.getElem?_map, Option.map_eq_some_iff]
  constructor
  · rintro ⟨k, hk, rfl⟩
    obtain ⟨hi, rfl⟩ := List.getElem?_eq_some_iff.mp hk
    rw [List.length_range] at hi
    exact ⟨hi, by rw [List.getElem_range]⟩
  · rintro ⟨hi, rfl⟩
    exact ⟨i, List.getElem?_range hi, rfl⟩

/-- A backoff gives one delay for each attempt that its policy allows, and then none until it is
reset. No delay is above the greatest one. The first `2^31` delays after a reset do not fall, and
none of them is below the base delay unless that is above the greatest one; those that follow do not
fall either, but start over: none of them is above the base delay. -/
theorem delays_ascend_in_two_runs (p : Policy) (growth : ℚ) (h : p.Grows growth) (factors : ℕ → ℚ)
    (calls : List Call) :
    let c := Course.run p factors calls
    let low := min p.baseDelay.nanos p.maxDelay.nanos
    c.backoff.failures = c.delays.length ∧ c.delays.length ≤ p.maxAttempts ∧
    (c.backoff.reply p factors = .exhausted ↔ c.delays.length = p.maxAttempts) ∧
    c.backoff.reply p factors ≠ .undelayed ∧
    ∀ i d, c.delays[i]? = some d →
      d.nanos ≤ p.maxDelay.nanos ∧ (i < 2 ^ 31 → low ≤ d.nanos) ∧ (2 ^ 31 ≤ i → d.nanos ≤ low) ∧
      ∀ j e, c.delays[j]? = some e → i ≤ j → j < 2 ^ 31 ∨ 2 ^ 31 ≤ i → d.nanos ≤ e.nanos := by
  intro c low
  have hc : c.Paced p growth := paced_run h factors calls
  have hlen : c.backoff.failures = c.delays.length := by
    rw [hc.delays, List.length_map, List.length_range]
  have hle := hc.failures_le
  have hlimit := h.limit
  refine ⟨hlen, hlen ▸ hle, ?_, ?_, fun i d hd => ?_⟩
  · rw [reply_eq h, ← hlen]
    split_ifs with hb <;> simp only [true_iff, false_iff] <;> omega
  · rw [reply_eq h]
    split_ifs <;> nofun
  · obtain ⟨hi, rfl⟩ := hc.getElem?_delays.mp hd
    refine ⟨rounded_le_cap p growth i, fun hlow => ?_, fun hhigh => ?_, fun j e he hij hside => ?_⟩
    · exact h.le_rounded (by rw [asSigned_of_lt hlow]; omega)
    · exact h.rounded_le (by rw [asSigned_of_le hhigh (by omega)]; omega)
    · obtain ⟨hj, rfl⟩ := hc.getElem?_delays.mp he
      refine h.rounded_mono ?_
      rcases hside with hside | hside
      · rw [asSigned_of_lt (by omega), asSigned_of_lt hside]
        omega
      · rw [asSigned_of_le hside (by omega), asSigned_of_le (by omega) (by omega)]
        omega

/-- Delays that double, from a tenth of a second up to one second, for as many attempts as the word
allows. -/
def doubling : Policy :=
  { maxAttempts := 2 ^ 32 - 1, baseDelay := .ofMillis 100, maxDelay := .ofSeconds 1, growth := 2.0,
    jitter := false }

theorem grows_doubling : doubling.Grows 2 := by
  refine ⟨?_, by norm_num, rfl, by decide, by decide⟩
  decide +kernel

/-- The delays after a reset double until they reach the greatest one. -/
theorem delays_ascend_in_two_runs_doubling :
    let c := Course.run doubling (fun _ => 1)
      [.next, .next, .reset, .next, .next, .next, .next, .next, .next]
    doubling.Grows 2 ∧
    c.delays = [.ofMillis 100, .ofMillis 200, .ofMillis 400, .ofMillis 800, .ofSeconds 1,
      .ofSeconds 1] ∧
    c.backoff.reply doubling (fun _ => 1) ≠ .exhausted ∧
    ∀ i d j e, c.delays[i]? = some d → c.delays[j]? = some e → i ≤ j → j < 2 ^ 31 →
      100000000 ≤ d.nanos ∧ d.nanos ≤ e.nanos ∧ e.nanos ≤ 1000000000 := by
  intro c
  have hdelays : c.delays = [.ofMillis 100, .ofMillis 200, .ofMillis 400, .ofMillis 800,
      .ofSeconds 1, .ofSeconds 1] := by decide +kernel
  obtain ⟨-, -, hexhausted, -, hall⟩ :=
    delays_ascend_in_two_runs doubling 2 grows_doubling (fun _ => 1)
      [.next, .next, .reset, .next, .next, .next, .next, .next, .next]
  refine ⟨grows_doubling, hdelays, fun hout => ?_, fun i d j e hd he hij hj => ?_⟩
  · have hlen := hexhausted.mp hout
    rw [hdelays] at hlen
    exact absurd hlen (by decide)
  · obtain ⟨-, hlow, -, hmono⟩ := hall i d hd
    exact ⟨hlow (by omega), hmono j e he hij (.inl hj), (hall j e he).1⟩

/-- The delay after `2^31` failures in a row is none at all: its exponent is read as `-2^31`. -/
theorem rounded_doubling : doubling.rounded 2 (2 ^ 31) = ⟨0⟩ := by
  have hexp : asSigned (2 ^ 31) ≤ -28 := by
    rw [asSigned_of_le le_rfl (by norm_num)]
    norm_num
  have hpow : (2 : ℚ) ^ asSigned (2 ^ 31) ≤ 2 ^ (-28 : ℤ) := zpow_le_zpow_right₀ (by norm_num) hexp
  have hspan : doubling.span 2 (2 ^ 31) ≤ 100000000 * 2 ^ (-28 : ℤ) :=
    (min_le_left _ _).trans (mul_le_mul_of_nonneg_left hpow (Nat.cast_nonneg _))
  have hhalf : 2 * doubling.span 2 (2 ^ 31) < 1 :=
    calc 2 * doubling.span 2 (2 ^ 31) ≤ 2 * (100000000 * 2 ^ (-28 : ℤ)) :=
          mul_le_mul_of_nonneg_left hspan (by norm_num)
      _ < 1 := by norm_num
  rw [Policy.rounded, nearest_of_lt_half (span_nonneg doubling (by norm_num) _) hhalf]
  rfl

/-- Once there have been more than `2^31` failures in a row the delays do not ascend. -/
theorem Course.Paced.falls {c : Course} (hc : c.Paced doubling 2)
    (h : 2 ^ 31 < c.backoff.failures) :
    c.delays[0]? = some (.ofMillis 100) ∧ c.delays[2 ^ 31]? = some ⟨0⟩ ∧
      ¬ c.delays.Pairwise fun d e => d.nanos ≤ e.nanos := by
  have hfirst : c.delays[0]? = some (.ofMillis 100) :=
    hc.getElem?_delays.mpr ⟨by omega, by decide +kernel⟩
  have hlast : c.delays[2 ^ 31]? = some ⟨0⟩ := hc.getElem?_delays.mpr ⟨h, rounded_doubling⟩
  refine ⟨hfirst, hlast, fun hmono => ?_⟩
  obtain ⟨hi, hd⟩ := List.getElem?_eq_some_iff.mp hfirst
  obtain ⟨hj, he⟩ := List.getElem?_eq_some_iff.mp hlast
  have hle := List.pairwise_iff_getElem.mp hmono 0 (2 ^ 31) hi hj (by norm_num)
  rw [hd, he] at hle
  exact absurd hle (by decide)

/-- The last of `2^31 + 1` delays in a row is below the first one, and below the base delay. -/
theorem delays_start_over :
    let c := Course.run doubling (fun _ => 1) (List.replicate (2 ^ 31 + 1) .next)
    c.delays[0]? = some (.ofMillis 100) ∧ c.delays[2 ^ 31]? = some ⟨0⟩ ∧
      ¬ c.delays.Pairwise fun d e => d.nanos ≤ e.nanos := by
  have hle : 2 ^ 31 + 1 ≤ doubling.maxAttempts := by norm_num [doubling]
  have hfailures := failures_replicate grows_doubling (fun _ => 1) hle
  exact (paced_run grows_doubling _ _).falls ((Nat.lt_add_one _).trans_eq hfailures.symm)

end Retry

end ShipBridge
