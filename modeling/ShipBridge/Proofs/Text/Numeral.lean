import Mathlib.Data.List.TakeWhile
import Mathlib.Tactic.SplitIfs
import ShipBridge.Text.Blank
import ShipBridge.Text.Numeral

/-!
# Reading numerals back

A number below the bound is read back from its decimal digits. Digits are not blank, so trimming
leaves a numeral as it is.
-/

namespace ShipBridge

namespace Numeral

theorem digit?_digitChar {d : Nat} (h : d < 10) : digit? d.digitChar = some d := by
  have hall : ∀ d < 10, digit? (Nat.digitChar d) = some d := by decide
  exact hall d h

theorem readDigits_append {limit : Nat} (cs ds : List Char) (n : Nat) :
    readDigits limit n (cs ++ ds) = (readDigits limit n cs).bind (readDigits limit · ds) := by
  induction cs generalizing n with
  | nil => rfl
  | cons c cs ih =>
    simp only [List.cons_append, readDigits]
    cases digit? c with
    | none => rfl
    | some d =>
      simp only
      split_ifs
      · exact ih _
      · rfl

theorem readDigits_singleton {limit n d : Nat} (hd : d < 10) (h : n * 10 + d ≤ limit) :
    readDigits limit n [d.digitChar] = .ok (n * 10 + d) := by
  simp only [readDigits, digit?_digitChar hd, if_pos h]

theorem readDigits_toDigits {limit : Nat} (n : Nat) (h : n ≤ limit) :
    readDigits limit 0 (Nat.toDigits 10 n) = .ok n := by
  induction n using Nat.strongRecOn with
  | _ n ih =>
    by_cases hn : n < 10
    · rw [Nat.toDigits_of_lt_base hn, readDigits_singleton hn (by omega)]
      simp
    · rw [Nat.toDigits_of_base_le (by omega) (by omega), readDigits_append,
        ih (n / 10) (by omega) (by omega)]
      have hq : n / 10 * 10 + n % 10 = n := by omega
      have hs : readDigits limit (n / 10) [(n % 10).digitChar] = .ok (n / 10 * 10 + n % 10) :=
        readDigits_singleton (by omega) (by omega)
      rw [hq] at hs
      exact hs

theorem read_eq_readDigits {limit : Nat} {cs : List Char} (hne : cs ≠ []) (hp : '+' ∉ cs) :
    read limit cs = readDigits limit 0 cs := by
  unfold read
  split
  · exact absurd rfl hne
  · simp at hp
  · simp at hp
  · rfl

theorem plus_notMem_toDigits (n : Nat) : '+' ∉ Nat.toDigits 10 n := by
  intro h
  have hd := Nat.isDigit_of_mem_toDigits (by omega) (by omega) h
  revert hd
  decide

theorem read64?_toDigits {n : Nat} (h : n ≤ maxU64) : read64? (Nat.toDigits 10 n) = some n := by
  rw [read64?, read_eq_readDigits Nat.toDigits_ne_nil (plus_notMem_toDigits n),
    readDigits_toDigits n h]
  rfl

end Numeral

namespace Text

theorem dropWhile_isBlank {cs : List Char} (h : ∀ c ∈ cs, isBlank c = false) :
    cs.dropWhile isBlank = cs := by
  refine List.dropWhile_eq_self_iff.mpr fun hl => ?_
  rw [h _ (List.getElem_mem hl)]
  exact Bool.false_ne_true

theorem trim_of_notBlank {cs : List Char} (h : ∀ c ∈ cs, isBlank c = false) : trim cs = cs := by
  rw [trim, trimLeft, dropWhile_isBlank h, trimRight,
    dropWhile_isBlank fun c hc => h c (List.mem_reverse.mp hc), List.reverse_reverse]

theorem isBlank_of_isDigit {c : Char} (h : c.isDigit = true) : isBlank c = false := by
  have hd : 48 ≤ c.toNat ∧ c.toNat ≤ 57 := by
    simpa [Char.isDigit, UInt32.le_iff_toNat_le] using h
  simp only [isBlank, Bool.or_eq_false_iff, Bool.and_eq_false_iff, decide_eq_false_iff_not,
    beq_eq_false_iff_ne]
  omega

theorem trim_toDigits (n : Nat) : trim (Nat.toDigits 10 n) = Nat.toDigits 10 n :=
  trim_of_notBlank fun _ hc =>
    isBlank_of_isDigit (Nat.isDigit_of_mem_toDigits (by omega) (by omega) hc)

/-- Blank characters at the end are trimmed away. -/
theorem trim_append {cs tail : List Char} (h : ∀ c ∈ tail, isBlank c = true) :
    trim (cs ++ tail) = trim cs := by
  have hleft : trimLeft tail = [] := by
    rw [trimLeft, List.dropWhile_eq_nil_iff]
    exact h
  have hright (ds : List Char) : trimRight (ds ++ tail) = trimRight ds := by
    rw [trimRight, List.reverse_append, List.dropWhile_append_of_pos, trimRight]
    exact fun c hc => h c (List.mem_reverse.mp hc)
  rw [trim, trim, trimLeft, List.dropWhile_append, ← trimLeft, ← trimLeft, hleft]
  split_ifs with hcs
  · rw [List.isEmpty_iff.mp hcs]
  · exact hright _

end Text

end ShipBridge
