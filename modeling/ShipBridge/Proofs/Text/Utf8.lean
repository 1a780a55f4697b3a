import Mathlib.Algebra.Group.Nat.Defs
import Mathlib.Tactic.SplitIfs
import ShipBridge.Text.Utf8

/-!
# Decoding what was encoded

A decoder at a character boundary that is fed the bytes of a character keeps silent up to the
last of them. That one completes the character and leads back to a boundary.

The other way round, whatever bytes a decoder is fed, they begin with the encoding of what it hands
out: the bytes since the last boundary are the first of every character that they can become.
-/

namespace ShipBridge.Utf8

/-- One step of a run, with the characters handed out so far, last first. -/
def step (r : List Char × State) (b : UInt8) : List Char × State :=
  ((feed r.2 b).2.elim r.1 (· :: r.1), (feed r.2 b).1)

theorem run_eq (s : State) (bs : List UInt8) :
    run s bs = ((bs.foldl step ([], s)).1.reverse, (bs.foldl step ([], s)).2) := rfl

theorem foldl_step (s : State) (bs : List UInt8) (cs : List Char) :
    bs.foldl step (cs, s) = ((bs.foldl step ([], s)).1 ++ cs, (bs.foldl step ([], s)).2) := by
  induction bs generalizing s cs with
  | nil => rfl
  | cons b bs ih =>
    rw [List.foldl_cons, List.foldl_cons, step, step, ih, ih _ (Option.elim _ _ _)]
    cases (feed s b).2 <;> simp

theorem run_cons (s : State) (b : UInt8) (bs : List UInt8) : run s (b :: bs) =
    ((feed s b).2.toList ++ (run (feed s b).1 bs).1, (run (feed s b).1 bs).2) := by
  rw [run_eq, run_eq, List.foldl_cons, step, foldl_step]
  cases (feed s b).2 <;> simp

/-! ## The first byte -/

theorem lead_two {b : Nat} (h : 0xC2 ≤ b ∧ b < 0xE0) :
    lead b = .inside (b - 0xC0) 1 0x80 0xBF 1 := by
  unfold lead
  rw [if_neg (by omega), if_pos h.2]

theorem lead_three {b : Nat} (h : 0xE0 ≤ b ∧ b < 0xF0) : lead b = .inside (b - 0xE0) 2
    (if b = 0xE0 then 0xA0 else 0x80) (if b = 0xED then 0x9F else 0xBF) 1 := by
  unfold lead
  rw [if_neg (by omega), if_neg (by omega)]
  split_ifs <;> simp_all

theorem lead_four {b : Nat} (h : 0xF0 ≤ b ∧ b ≤ 0xF4) : lead b = .inside (b - 0xF0) 3
    (if b = 0xF0 then 0x90 else 0x80) (if b = 0xF4 then 0x8F else 0xBF) 1 := by
  unfold lead
  rw [if_neg (by omega), if_neg (by omega), if_neg (by omega), if_neg (by omega), if_neg (by omega)]
  split_ifs <;> first | omega | simp_all

/-! ## The bytes after it -/

theorem feed_boundary {b : UInt8} (h : 0x80 ≤ b.toNat) :
    feed .boundary b = (lead b.toNat, none) := by
  simp only [feed]
  rw [if_neg (by omega)]

theorem feed_inside {value missing low high seen : Nat} {b : UInt8} (hm : missing ≠ 1)
    (h : low ≤ b.toNat ∧ b.toNat ≤ high) : feed (.inside value missing low high seen) b =
      (.inside (value * 64 + (b.toNat - 0x80)) (missing - 1) 0x80 0xBF (seen + 1), none) := by
  simp only [feed, if_pos h, if_neg hm]

theorem feed_last {value low high seen : Nat} {b : UInt8} (h : low ≤ b.toNat ∧ b.toNat ≤ high)
    {c : Char} (hc : value * 64 + (b.toNat - 0x80) = c.toNat) :
    feed (.inside value 1 low high seen) b = (.boundary, some c) := by
  simp only [feed, if_pos h, if_true, hc, Char.ofNat_toNat]

/-! ## Whole characters -/

theorem toNat_ofNat {k : Nat} (h : k < 256) : (UInt8.ofNat k).toNat = k := by
  simp [Nat.mod_eq_of_lt h]

/-- Bytes of which the last completes a character, and none before it. -/
def Completes (bs : List UInt8) (c : Char) : Prop :=
  ∃ init last s, bs = init ++ [last] ∧ run .boundary init = ([], s) ∧
    feed s last = (.boundary, some c)

variable {c : Char}

theorem completes_one (h : c.toNat < 0x80) : Completes [UInt8.ofNat c.toNat] c := by
  have hb : (UInt8.ofNat c.toNat).toNat = c.toNat := toNat_ofNat (by omega)
  refine ⟨[], _, .boundary, rfl, rfl, ?_⟩
  simp only [feed, hb, if_pos h, Char.ofNat_toNat]

theorem completes_two (h : 0x80 ≤ c.toNat ∧ c.toNat < 0x800) : Completes
    [UInt8.ofNat (c.toNat / 64 % 0x20 + 0xc0), UInt8.ofNat (c.toNat % 0x40 + 0x80)] c := by
  have h0 := toNat_ofNat (k := c.toNat / 64 % 0x20 + 0xc0) (by omega)
  have h1 := toNat_ofNat (k := c.toNat % 0x40 + 0x80) (by omega)
  refine ⟨[_], _, .inside (c.toNat / 64) 1 0x80 0xBF 1, rfl, ?_, feed_last ?_ ?_⟩
  · rw [run_cons, feed_boundary (by rw [h0]; omega), h0, lead_two (by omega)]
    rw [show c.toNat / 64 % 0x20 + 0xc0 - 0xC0 = c.toNat / 64 by omega]
    rfl
  · rw [h1]
    omega
  · rw [h1]
    omega

theorem completes_three (h : 0x800 ≤ c.toNat ∧ c.toNat < 0x10000) : Completes
    [UInt8.ofNat (c.toNat / 4096 % 0x10 + 0xe0), UInt8.ofNat (c.toNat / 64 % 0x40 + 0x80),
      UInt8.ofNat (c.toNat % 0x40 + 0x80)] c := by
  have hvalid : c.toNat < 0xD800 ∨ 0xDFFF < c.toNat ∧ c.toNat < 0x110000 := c.valid
  have h0 := toNat_ofNat (k := c.toNat / 4096 % 0x10 + 0xe0) (by omega)
  have h1 := toNat_ofNat (k := c.toNat / 64 % 0x40 + 0x80) (by omega)
  have h2 := toNat_ofNat (k := c.toNat % 0x40 + 0x80) (by omega)
  refine ⟨[_, _], _, .inside (c.toNat / 64) 1 0x80 0xBF 2, rfl, ?_, feed_last ?_ ?_⟩
  · rw [run_cons, feed_boundary (by rw [h0]; omega), h0, lead_three (by omega), run_cons,
      feed_inside (by omega) ?_, h1]
    · rw [show (c.toNat / 4096 % 0x10 + 0xe0 - 0xE0) * 64 + (c.toNat / 64 % 0x40 + 0x80 - 0x80) =
        c.toNat / 64 by omega]
      rfl
    · rw [h1]
      split_ifs <;> omega
  · rw [h2]
    omega
  · rw [h2]
    omega

theorem completes_four (h : 0x10000 ≤ c.toNat) : Completes
    [UInt8.ofNat (c.toNat / 262144 % 0x08 + 0xf0), UInt8.ofNat (c.toNat / 4096 % 0x40 + 0x80),
      UInt8.ofNat (c.toNat / 64 % 0x40 + 0x80), UInt8.ofNat (c.toNat % 0x40 + 0x80)] c := by
  have hvalid : c.toNat < 0xD800 ∨ 0xDFFF < c.toNat ∧ c.toNat < 0x110000 := c.valid
  have h0 := toNat_ofNat (k := c.toNat / 262144 % 0x08 + 0xf0) (by omega)
  have h1 := toNat_ofNat (k := c.toNat / 4096 % 0x40 + 0x80) (by omega)
  have h2 := toNat_ofNat (k := c.toNat / 64 % 0x40 + 0x80) (by omega)
  have h3 := toNat_ofNat (k := c.toNat % 0x40 + 0x80) (by omega)
  refine ⟨[_, _, _], _, .inside (c.toNat / 64) 1 0x80 0xBF 3, rfl, ?_, feed_last ?_ ?_⟩
  · rw [run_cons, feed_boundary (by rw [h0]; omega), h0, lead_four (by omega), run_cons,
      feed_inside (by omega) ?_, h1, run_cons, feed_inside (by omega) (by rw [h2]; omega), h2]
    · rw [show ((c.toNat / 262144 % 0x08 + 0xf0 - 0xF0) * 64 +
        (c.toNat / 4096 % 0x40 + 0x80 - 0x80)) * 64 + (c.toNat / 64 % 0x40 + 0x80 - 0x80) =
          c.toNat / 64 by omega]
      rfl
    · rw [h1]
      split_ifs <;> omega
  · rw [h3]
    omega
  · rw [h3]
    omega

theorem completes_encodeChar (c : Char) : Completes (String.utf8EncodeChar c) c := by
  have hv : c.val.toNat = c.toNat := rfl
  unfold String.utf8EncodeChar
  simp only [hv]
  split_ifs with h1 h2 h3
  · exact completes_one (by omega)
  · exact completes_two (by omega)
  · exact completes_three (by omega)
  · exact completes_four (by omega)

/-! ## Whole texts -/

theorem encode_append (cs ds : List Char) : encode (cs ++ ds) = encode cs ++ encode ds :=
  List.flatMap_append

theorem run_append (s : State) (as bs : List UInt8) : run s (as ++ bs) =
    ((run s as).1 ++ (run (run s as).2 bs).1, (run (run s as).2 bs).2) := by
  induction as generalizing s with
  | nil => rfl
  | cons a as ih => simp [run_cons, ih]

theorem run_encodeChar (c : Char) :
    run .boundary (String.utf8EncodeChar c) = ([c], .boundary) := by
  obtain ⟨init, last, s, hbytes, hinit, hlast⟩ := completes_encodeChar c
  rw [hbytes, run_append, hinit, run_cons, hlast]
  rfl

theorem run_encode (cs : List Char) : run .boundary (encode cs) = (cs, .boundary) := by
  induction cs with
  | nil => rfl
  | cons c cs ih =>
    rw [encode] at ih ⊢
    rw [List.flatMap_cons, run_append, run_encodeChar, ih]
    rfl

theorem split_encode (cs : List Char) : split (encode cs) = (cs, []) := by
  simp only [split, run_encode, List.drop_length]

/-! ## Whatever the decoder is fed -/

theorem encodeChar_of_lt {c : Char} (h : c.toNat < 0x80) :
    String.utf8EncodeChar c = [UInt8.ofNat c.toNat] := by
  have hv : c.val.toNat = c.toNat := rfl
  simp only [String.utf8EncodeChar, hv]
  exact if_pos (by omega)

def continuation (n : Nat) : Nat → List UInt8
  | 0 => []
  | k + 1 => UInt8.ofNat (n / 64 ^ k % 64 + 0x80) :: continuation n k

/-- The bytes fed since the last boundary: each number that the state can still come to is a
character, and its encoding begins with them. -/
def Holds (held : List UInt8) : State → Prop
  | .boundary => held = []
  | .inside value missing low high _ => ∃ k, missing = k + 1 ∧ 0x80 ≤ low ∧ high ≤ 0xBF ∧
      ∀ n, n / 64 ^ missing = value → low ≤ n / 64 ^ k % 64 + 0x80 →
        n / 64 ^ k % 64 + 0x80 ≤ high → n.isValidChar ∧
          String.utf8EncodeChar (Char.ofNat n) = held ++ continuation n missing
  | .broken _ => True

variable {b : UInt8}

theorem ofNat_of_eq_toNat {k : Nat} (h : k = b.toNat) : UInt8.ofNat k = b := by
  rw [h, UInt8.ofNat_toNat]

theorem toNat_charOfNat {n : Nat} (h : n.isValidChar) : (Char.ofNat n).toNat = n := by
  rw [Char.ofNat, dif_pos h]
  rfl

theorem holds_two (h : 0xC2 ≤ b.toNat ∧ b.toNat < 0xE0) : Holds [b] (lead b.toNat) := by
  rw [lead_two h]
  refine ⟨0, rfl, Nat.le_refl _, Nat.le_refl _, fun n hn _ _ => ?_⟩
  have hvalid : n.isValidChar := .inl (by omega)
  have hv : (Char.ofNat n).val.toNat = n := toNat_charOfNat hvalid
  refine ⟨hvalid, ?_⟩
  simp only [String.utf8EncodeChar, hv]
  rw [if_neg (by omega), if_pos (by omega), ofNat_of_eq_toNat (b := b) (by omega)]
  simp [continuation]

theorem holds_three (h : 0xE0 ≤ b.toNat ∧ b.toNat < 0xF0) : Holds [b] (lead b.toNat) := by
  rw [lead_three h]
  refine ⟨1, rfl, by split_ifs <;> omega, by split_ifs <;> omega, fun n hn hlow hhigh => ?_⟩
  rw [Nat.pow_one] at hlow hhigh
  have hrange : 0x800 ≤ n ∧ n < 0x10000 := by split_ifs at hlow <;> omega
  have hvalid : n.isValidChar := by
    rw [Nat.isValidChar]
    split_ifs at hhigh <;> omega
  have hv : (Char.ofNat n).val.toNat = n := toNat_charOfNat hvalid
  refine ⟨hvalid, ?_⟩
  simp only [String.utf8EncodeChar, hv]
  rw [if_neg (by omega), if_neg (by omega), if_pos (by omega),
    ofNat_of_eq_toNat (b := b) (by omega)]
  simp [continuation]

theorem holds_four (h : 0xF0 ≤ b.toNat ∧ b.toNat ≤ 0xF4) : Holds [b] (lead b.toNat) := by
  rw [lead_four h]
  refine ⟨2, rfl, by split_ifs <;> omega, by split_ifs <;> omega, fun n hn hlow hhigh => ?_⟩
  have hrange : 0x10000 ≤ n ∧ n < 0x110000 := by split_ifs at hlow hhigh <;> omega
  have hvalid : n.isValidChar := .inr (by omega)
  have hv : (Char.ofNat n).val.toNat = n := toNat_charOfNat hvalid
  refine ⟨hvalid, ?_⟩
  simp only [String.utf8EncodeChar, hv]
  rw [if_neg (by omega), if_neg (by omega), if_neg (by omega),
    ofNat_of_eq_toNat (b := b) (by omega)]
  simp [continuation]

theorem holds_lead (b : UInt8) : Holds [b] (lead b.toNat) := by
  by_cases h2 : 0xC2 ≤ b.toNat ∧ b.toNat < 0xE0
  · exact holds_two h2
  by_cases h3 : 0xE0 ≤ b.toNat ∧ b.toNat < 0xF0
  · exact holds_three h3
  by_cases h4 : 0xF0 ≤ b.toNat ∧ b.toNat ≤ 0xF4
  · exact holds_four h4
  have hbroken : lead b.toNat = .broken 1 := by
    unfold lead
    split_ifs <;> first | rfl | omega
  rw [hbroken]
  trivial

/-- One more byte completes a character or is held with the others. -/
theorem holds_feed {held : List UInt8} {s : State} (h : Holds held s) (b : UInt8) :
    ∃ rest, held ++ [b] = encode (feed s b).2.toList ++ rest ∧ Holds rest (feed s b).1 := by
  cases s with
  | boundary =>
    rw [show held = [] from h]
    by_cases hb : b.toNat < 0x80
    · have hv : (Char.ofNat b.toNat).toNat = b.toNat := toNat_charOfNat (.inl (by omega))
      have hchar : String.utf8EncodeChar (Char.ofNat b.toNat) = [b] := by
        rw [encodeChar_of_lt (by omega), hv, UInt8.ofNat_toNat]
      simp only [feed, if_pos hb]
      exact ⟨[], by rw [Option.toList_some, encode, List.flatMap_singleton, hchar]; rfl, rfl⟩
    · rw [feed_boundary (by omega)]
      exact ⟨[b], rfl, holds_lead b⟩
  | inside value missing low high seen =>
    obtain ⟨k, rfl, hlow, hhigh, hall⟩ := h
    by_cases hb : low ≤ b.toNat ∧ b.toNat ≤ high
    · cases k with
      | zero =>
        obtain ⟨hvalid, hchar⟩ := hall (value * 64 + (b.toNat - 0x80)) (by omega)
          (by rw [Nat.pow_zero]; omega) (by rw [Nat.pow_zero]; omega)
        rw [feed_last hb (toNat_charOfNat hvalid).symm]
        refine ⟨[], ?_, rfl⟩
        rw [Option.toList_some, encode, List.flatMap_singleton, hchar, continuation, continuation,
          ofNat_of_eq_toNat (b := b) (by rw [Nat.pow_zero]; omega), List.append_nil]
      | succ k =>
        rw [feed_inside (by omega) hb]
        refine ⟨held ++ [b], rfl, k, rfl, Nat.le_refl _, Nat.le_refl _, fun n hn _ _ => ?_⟩
        change n / 64 ^ (k + 1) = _ at hn
        have hpow : n / 64 ^ (k + 1 + 1) = n / 64 ^ (k + 1) / 64 := by
          rw [Nat.pow_succ 64 (k + 1), Nat.div_div_eq_div_mul]
        obtain ⟨hvalid, hchar⟩ := hall n (by rw [hpow, hn]; omega) (by rw [hn]; omega)
          (by rw [hn]; omega)
        refine ⟨hvalid, ?_⟩
        rw [hchar, continuation, ofNat_of_eq_toNat (b := b) (by rw [hn]; omega), List.append_assoc]
        rfl
    · simp only [feed, if_neg hb]
      exact ⟨held ++ [b], rfl, trivial⟩
  | broken n => exact ⟨held ++ [b], rfl, trivial⟩

theorem holds_run {held : List UInt8} {s : State} (h : Holds held s) (bytes : List UInt8) :
    ∃ rest, held ++ bytes = encode (run s bytes).1 ++ rest ∧ Holds rest (run s bytes).2 := by
  induction bytes generalizing held s with
  | nil => exact ⟨held, List.append_nil held, h⟩
  | cons b bs ih =>
    obtain ⟨now, hnow, hheld⟩ := holds_feed h b
    obtain ⟨rest, hrest, hend⟩ := ih hheld
    rw [run_cons]
    refine ⟨rest, ?_, hend⟩
    rw [encode_append, List.append_assoc, ← hrest, ← List.append_assoc, ← hnow, List.append_assoc,
      List.singleton_append]

/-- The bytes are those of the characters decoded, followed by those left undecoded. -/
theorem encode_split (bytes : List UInt8) :
    encode (split bytes).1 ++ (split bytes).2 = bytes := by
  obtain ⟨rest, hbytes, -⟩ := holds_run (show Holds [] .boundary from rfl) bytes
  rw [List.nil_append] at hbytes
  exact List.prefix_iff_eq_append.mp ⟨rest, hbytes.symm⟩

/-- Nothing is left undecoded exactly if the bytes encode what has been decoded. -/
theorem split_eq_iff {bytes : List UInt8} {cs : List Char} :
    split bytes = (cs, []) ↔ bytes = encode cs := by
  refine ⟨fun h => ?_, fun h => h ▸ split_encode cs⟩
  rw [← encode_split bytes, h, List.append_nil]

/-- The bytes left undecoded make no character, and leave a decoder where all the bytes do. -/
theorem run_undecoded (bytes : List UInt8) :
    run .boundary (split bytes).2 = ([], (run .boundary bytes).2) := by
  have hrun : run .boundary (encode (split bytes).1 ++ (split bytes).2) =
      ((split bytes).1 ++ (run .boundary (split bytes).2).1,
        (run .boundary (split bytes).2).2) := by rw [run_append, run_encode]
  rw [encode_split] at hrun
  have hnone : (run .boundary (split bytes).2).1 = [] := by
    have hfst : (split bytes).1 = (split bytes).1 ++ (run .boundary (split bytes).2).1 :=
      congrArg Prod.fst hrun
    exact List.self_eq_append_right.mp hfst
  exact Prod.ext hnone (congrArg Prod.snd hrun).symm

/-! ## Single bytes -/

/-- A byte below 0x80 is a character by itself and no part of another. -/
theorem eq_of_mem_encodeChar {c : Char} (h : b ∈ String.utf8EncodeChar c) (hb : b.toNat < 0x80) :
    c.toNat = b.toNat := by
  have hv : c.val.toNat = c.toNat := rfl
  have hvalid : c.toNat < 0xD800 ∨ 0xDFFF < c.toNat ∧ c.toNat < 0x110000 := c.valid
  have hhigh {k : Nat} (hk : 0x80 ≤ k ∧ k < 256) : b ≠ UInt8.ofNat k := by
    rintro rfl
    rw [toNat_ofNat hk.2] at hb
    omega
  simp only [String.utf8EncodeChar, hv] at h
  split_ifs at h with h1 h2 h3
  · rw [List.mem_singleton.mp h, toNat_ofNat (by omega)]
  · simp only [List.mem_cons, List.not_mem_nil, or_false] at h
    rcases h with h | h <;> exact absurd h (hhigh (by omega))
  · simp only [List.mem_cons, List.not_mem_nil, or_false] at h
    rcases h with h | h | h <;> exact absurd h (hhigh (by omega))
  · simp only [List.mem_cons, List.not_mem_nil, or_false] at h
    rcases h with h | h | h | h <;> exact absurd h (hhigh (by omega))

theorem mem_encode_iff {c : Char} (h : c.toNat < 0x80) {cs : List Char} :
    UInt8.ofNat c.toNat ∈ encode cs ↔ c ∈ cs := by
  have hb : (UInt8.ofNat c.toNat).toNat = c.toNat := toNat_ofNat (by omega)
  constructor
  · intro hmem
    obtain ⟨d, hd, hbyte⟩ := List.mem_flatMap.mp hmem
    have heq := eq_of_mem_encodeChar hbyte (by rw [hb]; exact h)
    rw [hb] at heq
    rwa [← Char.toNat_inj.mp heq]
  · intro hmem
    refine List.mem_flatMap.mpr ⟨c, hmem, ?_⟩
    rw [encodeChar_of_lt h]
    exact List.mem_singleton_self _

end ShipBridge.Utf8
