import Mathlib.Data.String.Basic
import Mathlib.Tactic.IntervalCases
import Mathlib.Tactic.SplitIfs
import ShipBridge.Json.Printer
import ShipBridge.Json.Record
import ShipBridge.Proofs.Text.Numeral

/-!
# Reading back what was written

The reader undoes the printer on every value without doubles. The statement that carries the
induction has the written value in front of an arbitrary rest: reading stops exactly where the
value ends, because what may follow a value in a text is no digit, point or exponent mark.

Fuel is no concern of the result. Each step of the reader takes at least one character, and the
fuel that the reader gives itself exceeds the length of the text.
-/

namespace ShipBridge.Json

mutual

/-- Are all numbers integers that the text keeps exact? -/
def Integral : Json → Prop
  | .number (.int i) => minInt ≤ i ∧ i ≤ maxInt
  | .number (.float _) => False
  | .array items => IntegralItems items
  | .object members => IntegralMembers members
  | .null | .bool _ | .string _ => True

def IntegralItems : List Json → Prop
  | [] => True
  | j :: js => j.Integral ∧ IntegralItems js

def IntegralMembers : List (String × Json) → Prop
  | [] => True
  | (_, j) :: ms => j.Integral ∧ IntegralMembers ms

end

mutual

/-- Do the keys of every object increase? This is the form in which values are kept. -/
def Ordered : Json → Prop
  | .array items => OrderedItems items
  | .object members => members.Pairwise (·.1 < ·.1) ∧ OrderedMembers members
  | .null | .bool _ | .number _ | .string _ => True

def OrderedItems : List Json → Prop
  | [] => True
  | j :: js => j.Ordered ∧ OrderedItems js

def OrderedMembers : List (String × Json) → Prop
  | [] => True
  | (_, j) :: ms => j.Ordered ∧ OrderedMembers ms

end

mutual

/-- The number of arrays and objects that are open at the deepest place of a value. -/
def depth : Json → Nat
  | .array items => itemsDepth items + 1
  | .object members => membersDepth members + 1
  | .null | .bool _ | .number _ | .string _ => 0

def itemsDepth : List Json → Nat
  | [] => 0
  | j :: js => max j.depth (itemsDepth js)

def membersDepth : List (String × Json) → Nat
  | [] => 0
  | (_, j) :: ms => max j.depth (membersDepth ms)

end

/-- A text that does not carry on a number standing before it. -/
def Breaks (rest : List Char) : Prop :=
  ∀ c, rest.head? = some c → isDigit c = false ∧ c ≠ '.' ∧ c ≠ 'e' ∧ c ≠ 'E'

theorem breaks_nil : Breaks [] := nofun

theorem breaks_cons {c : Char} {cs : List Char} (hd : isDigit c = false)
    (hc : c ≠ '.' ∧ c ≠ 'e' ∧ c ≠ 'E') : Breaks (c :: cs) := by
  intro d h
  rw [List.head?_cons, Option.some.injEq] at h
  subst h
  exact ⟨hd, hc⟩

theorem breaks_comma (cs : List Char) : Breaks (',' :: cs) := breaks_cons rfl (by decide)

theorem breaks_bracket (cs : List Char) : Breaks (']' :: cs) := breaks_cons rfl (by decide)

theorem breaks_brace (cs : List Char) : Breaks ('\x7d' :: cs) := breaks_cons rfl (by decide)

section Numbers

theorem digitValue?_digitChar {d : Nat} (h : d < 10) : digitValue? d.digitChar = some d :=
  Numeral.digit?_digitChar h

theorem readInteger_digit {positive : Bool} {n d : Nat} {cs : List Char} (hd : d < 10)
    (h : n * 10 + d ≤ significandLimit) :
    readInteger positive n (d.digitChar :: cs) = readInteger positive (n * 10 + d) cs := by
  rw [readInteger, digitValue?_digitChar hd]
  exact if_pos h

theorem readInteger_toDigits {positive : Bool} (n : Nat) (h : n ≤ significandLimit)
    (rest : List Char) :
    readInteger positive 0 (Nat.toDigits 10 n ++ rest) = readInteger positive n rest := by
  induction n using Nat.strongRecOn generalizing rest with
  | _ n ih =>
    by_cases hn : n < 10
    · rw [Nat.toDigits_of_lt_base hn, List.singleton_append, readInteger_digit hn (by omega)]
      simp
    · have hq : n / 10 * 10 + n % 10 = n := by omega
      rw [Nat.toDigits_of_base_le (by omega) (by omega), List.append_assoc,
        ih (n / 10) (by omega) (by omega), List.singleton_append,
        readInteger_digit (by omega) (by omega), hq]

theorem readTail_of_breaks {positive : Bool} {n : Nat} {rest : List Char} (h : Breaks rest) :
    readTail positive n rest = .ok (exact positive n, rest) := by
  unfold readTail
  split
  · exact absurd rfl (h '.' rfl).2.1
  · exact absurd rfl (h 'e' rfl).2.2.1
  · exact absurd rfl (h 'E' rfl).2.2.2
  · rfl

theorem readInteger_of_breaks {positive : Bool} {n : Nat} {rest : List Char}
    (h : Breaks rest) : readInteger positive n rest = .ok (exact positive n, rest) := by
  cases rest with
  | nil => rfl
  | cons c cs =>
    have hv : digitValue? c = none := by
      simpa [isDigit] using (h c rfl).1
    rw [readInteger, hv]
    exact readTail_of_breaks h

/-- The first digit of a positive number is not zero. -/
theorem toDigits_eq_cons (n : Nat) :
    ∃ d ds, Nat.toDigits 10 n = Nat.digitChar d :: ds ∧ d < 10 ∧ (0 < n → 0 < d) := by
  induction n using Nat.strongRecOn with
  | _ n ih =>
    by_cases hn : n < 10
    · exact ⟨n, [], Nat.toDigits_of_lt_base hn, hn, id⟩
    · obtain ⟨d, ds, he, hd, hpos⟩ := ih (n / 10) (by omega)
      refine ⟨d, ds ++ [(n % 10).digitChar], ?_, hd, fun _ => hpos (by omega)⟩
      rw [Nat.toDigits_of_base_le (by omega) (by omega), he, List.cons_append]

theorem digitChar_ne_zero {d : Nat} (h : 0 < d) (hd : d < 10) : d.digitChar ≠ '0' := by
  have hall : ∀ d < 10, 0 < d → Nat.digitChar d ≠ '0' := by decide
  exact hall d hd h

theorem readUnsigned_zero {positive : Bool} {rest : List Char} (h : Breaks rest) :
    readUnsigned positive ('0' :: rest) = .ok (exact positive 0, rest) := by
  cases rest with
  | nil => exact readTail_of_breaks h
  | cons c cs =>
    rw [readUnsigned, (h c rfl).1]
    exact readTail_of_breaks h

theorem readUnsigned_digit {positive : Bool} {c : Char} {cs : List Char} {d : Nat}
    (hc : c ≠ '0') (hd : digitValue? c = some d) :
    readUnsigned positive (c :: cs) = readInteger positive d cs := by
  rw [readUnsigned, hd]
  · simp [hc]
  · simp [hc]

theorem readUnsigned_toDigits {positive : Bool} {n : Nat} (h : n ≤ significandLimit)
    {rest : List Char} (hr : Breaks rest) :
    readUnsigned positive (Nat.toDigits 10 n ++ rest) = .ok (exact positive n, rest) := by
  by_cases hn : 0 < n
  · have hread : readInteger positive 0 (Nat.toDigits 10 n ++ rest)
        = .ok (exact positive n, rest) := by
      rw [readInteger_toDigits n h, readInteger_of_breaks hr]
    obtain ⟨d, ds, he, hd, hpos⟩ := toDigits_eq_cons n
    have hz := digitChar_ne_zero (hpos hn) hd
    have hfirst : 0 * 10 + d ≤ significandLimit := by
      rw [significandLimit]
      omega
    rw [he, List.cons_append] at hread ⊢
    rw [readInteger_digit hd hfirst, Nat.zero_mul, Nat.zero_add] at hread
    rw [readUnsigned_digit hz (digitValue?_digitChar hd), hread]
  · obtain rfl : n = 0 := by omega
    exact readUnsigned_zero hr

/-- An integer read after its sign. -/
theorem readUnsigned_natAbs {i : Int} (h : minInt ≤ i ∧ i ≤ maxInt) {rest : List Char}
    (hr : Breaks rest) :
    readUnsigned (decide (0 ≤ i)) (Nat.toDigits 10 i.natAbs ++ rest) = .ok (.int i, rest) := by
  simp only [minInt, maxInt] at h
  rw [readUnsigned_toDigits (by simp only [significandLimit]; omega) hr]
  congr 2
  by_cases hi : 0 ≤ i
  · simp only [exact, hi, decide_true, if_true]
    congr 1
    omega
  · simp only [exact, hi, decide_false, Bool.false_eq_true, if_false]
    rw [if_pos (by omega)]
    congr 1
    omega

end Numbers

section Strings

theorem hexValue?_hexDigit (n : Nat) : Text.hexValue? (Text.hexDigit n) = some (n % 16) := by
  have hall : ∀ d < 16, Text.hexValue? (Nat.digitChar d) = some d := by decide
  exact hall (n % 16) (by omega)

theorem hasFourBytes_cons (a b c d : Char) (cs : List Char) :
    hasFourBytes (a :: b :: c :: d :: cs) = true := by
  have ha := a.utf8Size_pos
  have hb := b.utf8Size_pos
  have hc := c.utf8Size_pos
  have hd := d.utf8Size_pos
  have hfour : 4 ≤ 0 + a.utf8Size + b.utf8Size + c.utf8Size + d.utf8Size := by omega
  exact decide_eq_true hfour

/-- An escape by number, as the printer writes it for a control character. -/
theorem readQuoted_control {acc : List Char} {c : Char} (h : c.toNat < 0x20) (rest : List Char) :
    readQuoted .plain acc ('\\' :: 'u' :: '0' :: '0' :: Text.hexDigit (c.toNat / 16) ::
      Text.hexDigit c.toNat :: rest) = readQuoted .plain (c :: acc) rest := by
  have hz : Text.hexValue? '0' = some 0 := rfl
  have hvalue : c.toNat / 16 % 16 * 16 + c.toNat % 16 = c.toNat := by omega
  have htrailing : isTrailing c.toNat = false := by
    simp only [isTrailing, Bool.and_eq_false_iff, decide_eq_false_iff_not]
    omega
  have hleading : isLeading c.toNat = false := by
    simp only [isLeading, Bool.and_eq_false_iff, decide_eq_false_iff_not]
    omega
  simp [readQuoted, hasFourBytes_cons, hz, hexValue?_hexDigit, hvalue, htrailing, hleading]

theorem readQuoted_escape (acc : List Char) (c : Char) (rest : List Char) :
    readQuoted .plain acc (escape c ++ rest) = readQuoted .plain (c :: acc) rest := by
  unfold escape
  split_ifs with h₁ h₂ h₃ h₄ h₅ h₆ h₇ h₈
  · subst h₁
    rfl
  · subst h₂
    rfl
  · subst h₃
    rfl
  · subst h₄
    rfl
  · subst h₅
    rfl
  · subst h₆
    rfl
  · subst h₇
    rfl
  · exact readQuoted_control h₈ rest
  · rw [List.singleton_append, readQuoted]
    simp only [if_neg h₁, if_neg h₂, if_neg h₈]

theorem readQuoted_flatMap_escape (s acc rest : List Char) :
    readQuoted .plain acc (s.flatMap escape ++ '"' :: rest)
      = .ok (String.ofList (acc.reverse ++ s), rest) := by
  induction s generalizing acc with
  | nil => simp [readQuoted]
  | cons c s ih =>
    rw [List.flatMap_cons, List.append_assoc, readQuoted_escape, ih, List.reverse_cons,
      List.append_assoc, List.singleton_append]

theorem quote_append (s : String) (rest : List Char) :
    quote s ++ rest = '"' :: (s.toList.flatMap escape ++ '"' :: rest) := by
  simp [quote]

theorem readString_quote (s : String) (rest : List Char) :
    readString (s.toList.flatMap escape ++ '"' :: rest) = .ok (s, rest) := by
  rw [readString, readQuoted_flatMap_escape, List.reverse_nil, List.nil_append,
    String.ofList_toList]

end Strings

section Trees

/-- How a written value or key begins: neither with white space nor like the end of a list. -/
def Starts (cs : List Char) : Prop :=
  ∃ c tail, cs = c :: tail ∧ isSpace c = false ∧ c ≠ ']' ∧ c ≠ '\x7d'

theorem Starts.append {cs : List Char} (h : Starts cs) (rest : List Char) :
    Starts (cs ++ rest) := by
  obtain ⟨c, tail, rfl, hc⟩ := h
  exact ⟨c, tail ++ rest, rfl, hc⟩

theorem starts_cons {c : Char} {tail : List Char} (h : isSpace c = false)
    (hc : c ≠ ']' ∧ c ≠ '\x7d') : Starts (c :: tail) := ⟨c, tail, rfl, h, hc⟩

theorem skipSpace_cons {c : Char} (h : isSpace c = false) (cs : List Char) :
    skipSpace (c :: cs) = c :: cs := List.dropWhile_cons_of_neg (by simp [h])

theorem Starts.length_pos {cs : List Char} (h : Starts cs) : 0 < cs.length := by
  obtain ⟨c, tail, rfl, -⟩ := h
  exact Nat.succ_pos _

theorem Starts.skipSpace_eq {cs : List Char} (h : Starts cs) : skipSpace cs = cs := by
  obtain ⟨c, tail, rfl, hc, -⟩ := h
  exact skipSpace_cons hc tail

theorem starts_quote (s : String) : Starts (quote s) := starts_cons rfl (by decide)

theorem starts_toDigits (n : Nat) : Starts (Nat.toDigits 10 n) := by
  have hall : ∀ d < 10, isSpace d.digitChar = false ∧ d.digitChar ≠ ']' ∧ d.digitChar ≠ '\x7d' := by
    decide
  obtain ⟨d, ds, he, hd, -⟩ := toDigits_eq_cons n
  exact ⟨_, ds, he, hall d hd⟩

theorem starts_chars {j : Json} (h : j.Integral) : Starts j.chars := by
  cases j with
  | null => exact starts_cons rfl (by decide)
  | bool b => cases b <;> exact starts_cons rfl (by decide)
  | number n =>
    cases n with
    | float bits => exact h.elim
    | int i =>
      change Starts (intChars i)
      unfold intChars
      split_ifs
      · exact starts_cons rfl (by decide)
      · exact starts_toDigits i.natAbs
  | string s => exact starts_quote s
  | array items => exact starts_cons rfl (by decide)
  | object members => exact starts_cons rfl (by decide)

theorem readSeparator_close {close : Char} (h : isSpace close = false) (rest : List Char) :
    readSeparator close (close :: rest) = .ok (.close rest) := by
  rw [readSeparator, skipSpace_cons h]
  exact if_pos rfl

theorem readSeparator_comma {close : Char} (hc : close = ']' ∨ close = '\x7d') {cs : List Char}
    (h : Starts cs) : readSeparator close (',' :: cs) = .ok (.more cs) := by
  have hne : ',' ≠ close := by
    rcases hc with rfl | rfl <;> decide
  rw [readSeparator, skipSpace_cons rfl]
  simp only [if_neg hne, if_true, h.skipSpace_eq]
  obtain ⟨c, tail, rfl, -, hbracket, hbrace⟩ := h
  have hclose : c ≠ close := by
    rcases hc with rfl | rfl
    · exact hbracket
    · exact hbrace
  exact if_neg hclose

theorem readColon_cons (cs : List Char) : readColon (':' :: cs) = .ok cs := rfl

theorem readTree_toDigits {fuel depth n : Nat} {rest : List Char} :
    readTree (fuel + 1) depth (Nat.toDigits 10 n ++ rest)
      = readNumber true (Nat.toDigits 10 n ++ rest) := by
  obtain ⟨d, ds, he, hd, -⟩ := toDigits_eq_cons n
  rw [he, List.cons_append]
  interval_cases d <;> rfl

theorem readTree_intChars {i : Int} (h : minInt ≤ i ∧ i ≤ maxInt) {fuel depth : Nat}
    {rest : List Char} (hr : Breaks rest) :
    readTree (fuel + 1) depth (intChars i ++ rest) = .ok (.number (.int i), rest) := by
  have hread := readUnsigned_natAbs h hr
  unfold intChars
  split_ifs with hi
  · rw [decide_eq_false (by omega)] at hread
    change readNumber false (Nat.toDigits 10 i.natAbs ++ rest) = _
    rw [readNumber, hread]
    rfl
  · rw [decide_eq_true (by omega)] at hread
    rw [readTree_toDigits, readNumber, hread]
    rfl

theorem array_chars_append (js : List Json) (rest : List Char) :
    (Json.array js).chars ++ rest = '[' :: (itemChars js ++ ']' :: rest) := by
  rw [chars, List.cons_append, List.cons_append, List.append_assoc, List.singleton_append]

theorem object_chars_append (ms : List (String × Json)) (rest : List Char) :
    (Json.object ms).chars ++ rest = '\x7b' :: (memberChars ms ++ '\x7d' :: rest) := by
  rw [chars, List.cons_append, List.cons_append, List.append_assoc, List.singleton_append]

theorem itemChars_cons_cons (j i : Json) (is : List Json) :
    itemChars (j :: i :: is) = j.chars ++ ',' :: itemChars (i :: is) := rfl

theorem memberChars_cons_cons (k : String) (j : Json) (m : String × Json)
    (ms : List (String × Json)) :
    memberChars ((k, j) :: m :: ms) = quote k ++ ':' :: j.chars ++ ',' :: memberChars (m :: ms) :=
  rfl

theorem memberChars_cons (k : String) (j : Json) (ms : List (String × Json)) :
    ∃ tail, memberChars ((k, j) :: ms) = quote k ++ ':' :: j.chars ++ tail := by
  cases ms with
  | nil => exact ⟨[], by rw [memberChars, List.append_nil]⟩
  | cons m ms => exact ⟨',' :: memberChars (m :: ms), memberChars_cons_cons k j m ms⟩

theorem starts_memberChars (m : String × Json) (ms : List (String × Json)) :
    Starts (memberChars (m :: ms)) := by
  obtain ⟨tail, h⟩ := memberChars_cons m.1 m.2 ms
  rw [h, List.append_assoc]
  exact (starts_quote m.1).append _

theorem starts_itemChars {j : Json} (h : j.Integral) (js : List Json) :
    Starts (itemChars (j :: js)) := by
  cases js with
  | nil => exact starts_chars h
  | cons i js => exact (starts_chars h).append _

theorem readTree_bracket {fuel depth : Nat} {cs : List Char} (h : Starts cs) :
    readTree (fuel + 1) (depth + 1) ('[' :: cs)
      = (readItems fuel depth [] cs).map fun (js, rest) => (.array js, rest) := by
  simp only [readTree, skipSpace_cons (show isSpace '[' = false from rfl), h.skipSpace_eq]
  obtain ⟨c, tail, rfl, -, hc, -⟩ := h
  split
  · contradiction
  · simp_all
  · rfl

theorem readTree_brace {fuel depth : Nat} {cs : List Char} (h : Starts cs) :
    readTree (fuel + 1) (depth + 1) ('\x7b' :: cs)
      = (readMembers fuel depth [] cs).map fun (ms, rest) => (.object ms, rest) := by
  simp only [readTree, skipSpace_cons (show isSpace '\x7b' = false from rfl), h.skipSpace_eq]
  obtain ⟨c, tail, rfl, -, -, hc⟩ := h
  split
  · contradiction
  · simp_all
  · rfl

theorem readMembers_member {fuel depth : Nat} {acc : List (String × Json)} {key : String} {j : Json}
    {rest : List Char} (h : readTree fuel depth (j.chars ++ rest) = .ok (j, rest)) :
    readMembers (fuel + 1) depth acc (quote key ++ ':' :: (j.chars ++ rest))
      = match readSeparator '\x7d' rest with
        | .error e => .error e
        | .ok (.close rest) => .ok (((key, j) :: acc).reverse, rest)
        | .ok (.more rest) => readMembers fuel depth ((key, j) :: acc) rest := by
  rw [quote_append, readMembers, readString_quote]
  cases hnext : readSeparator '\x7d' rest with
  | error e => simp only [readColon_cons, h, hnext]
  | ok next => cases next <;> simp only [readColon_cons, h, hnext]

mutual

theorem readTree_chars {j : Json} (hj : j.Integral) {fuel depth : Nat} {rest : List Char}
    (hf : j.chars.length ≤ fuel) (hd : j.depth ≤ depth) (hr : Breaks rest) :
    readTree fuel depth (j.chars ++ rest) = .ok (j, rest) := by
  have hpos := (starts_chars hj).length_pos
  match fuel, hf with
  | 0, hf => omega
  | fuel + 1, hf =>
  match j, hj with
  | .null, _ => rfl
  | .bool true, _ => rfl
  | .bool false, _ => rfl
  | .number (.int i), hj => exact readTree_intChars hj hr
  | .string s, _ =>
    rw [chars, quote_append]
    change (readString _).map _ = _
    rw [readString_quote]
    rfl
  | .array [], _ =>
    obtain ⟨depth, rfl⟩ := Nat.exists_eq_add_one.mpr (Nat.zero_lt_of_lt hd)
    rfl
  | .array (i :: is), hj =>
    obtain ⟨depth, rfl⟩ := Nat.exists_eq_add_one.mpr (Nat.zero_lt_of_lt hd)
    simp only [chars, List.length_append, List.length_cons, List.length_nil] at hf
    simp only [Json.depth] at hd
    have hread := readItems_itemChars hj (show (itemChars (i :: is)).length < fuel by omega)
      (show itemsDepth (i :: is) ≤ depth by omega) [] rest
    rw [array_chars_append, readTree_bracket ((starts_itemChars hj.1 is).append _), hread]
    rfl
  | .object [], _ =>
    obtain ⟨depth, rfl⟩ := Nat.exists_eq_add_one.mpr (Nat.zero_lt_of_lt hd)
    rfl
  | .object (m :: ms), hj =>
    obtain ⟨depth, rfl⟩ := Nat.exists_eq_add_one.mpr (Nat.zero_lt_of_lt hd)
    simp only [chars, List.length_append, List.length_cons, List.length_nil] at hf
    simp only [Json.depth] at hd
    have hread := readMembers_memberChars hj (show (memberChars (m :: ms)).length < fuel by omega)
      (show membersDepth (m :: ms) ≤ depth by omega) [] rest
    rw [object_chars_append, readTree_brace ((starts_memberChars m ms).append _), hread]
    rfl

theorem readItems_itemChars {j : Json} {js : List Json} (hj : IntegralItems (j :: js))
    {fuel depth : Nat} (hf : (itemChars (j :: js)).length < fuel)
    (hd : itemsDepth (j :: js) ≤ depth) (acc : List Json) (rest : List Char) :
    readItems fuel depth acc (itemChars (j :: js) ++ ']' :: rest)
      = .ok (acc.reverse ++ j :: js, rest) := by
  match fuel, hf with
  | 0, hf => omega
  | fuel + 1, hf =>
  have hdepth : j.depth ≤ depth := le_trans (le_max_left _ _) hd
  match js, hj with
  | [], hj =>
    simp only [itemChars] at hf
    have hread := readTree_chars hj.1 (show j.chars.length ≤ fuel by omega) hdepth
      (breaks_bracket rest)
    rw [itemChars, readItems, hread]
    simp only [readSeparator_close (show isSpace ']' = false from rfl), List.reverse_cons]
  | i :: is, hj =>
    simp only [itemChars, List.length_append, List.length_cons] at hf
    have hread := readTree_chars hj.1 (show j.chars.length ≤ fuel by omega) hdepth
      (breaks_comma (itemChars (i :: is) ++ ']' :: rest))
    have hnext := readItems_itemChars hj.2 (show (itemChars (i :: is)).length < fuel by omega)
      (le_trans (le_max_right _ _) hd) (j :: acc) rest
    rw [itemChars_cons_cons, List.append_assoc, List.cons_append, readItems, hread]
    simp only [readSeparator_comma (.inl rfl) ((starts_itemChars hj.2.1 is).append _)]
    rw [hnext, List.reverse_cons, List.append_assoc, List.singleton_append]

theorem readMembers_memberChars {m : String × Json} {ms : List (String × Json)}
    (hm : IntegralMembers (m :: ms)) {fuel depth : Nat} (hf : (memberChars (m :: ms)).length < fuel)
    (hd : membersDepth (m :: ms) ≤ depth) (acc : List (String × Json)) (rest : List Char) :
    readMembers fuel depth acc (memberChars (m :: ms) ++ '\x7d' :: rest)
      = .ok (acc.reverse ++ m :: ms, rest) := by
  match fuel, hf with
  | 0, hf => omega
  | fuel + 1, hf =>
  obtain ⟨key, j⟩ := m
  have hdepth : j.depth ≤ depth := le_trans (le_max_left _ _) hd
  match ms, hm with
  | [], hm =>
    simp only [memberChars, List.length_append, List.length_cons] at hf
    have hread := readTree_chars hm.1 (show j.chars.length ≤ fuel by omega) hdepth
      (breaks_brace rest)
    rw [memberChars, List.append_assoc, List.cons_append, readMembers_member hread,
      readSeparator_close rfl, List.reverse_cons]
  | n :: ns, hm =>
    simp only [memberChars, List.length_append, List.length_cons] at hf
    have hread := readTree_chars hm.1 (show j.chars.length ≤ fuel by omega) hdepth
      (breaks_comma (memberChars (n :: ns) ++ '\x7d' :: rest))
    have hnext := readMembers_memberChars hm.2 (show (memberChars (n :: ns)).length < fuel by omega)
      (le_trans (le_max_right _ _) hd) ((key, j) :: acc) rest
    rw [memberChars_cons_cons, List.append_assoc, List.append_assoc, List.cons_append,
      List.cons_append, readMembers_member hread,
      readSeparator_comma (.inr rfl) ((starts_memberChars n ns).append _)]
    simp only [hnext, List.reverse_cons, List.append_assoc, List.singleton_append]

end

/-- The fuel that the reader gives itself is enough. -/
theorem readTree_stepsFor {j : Json} (hj : j.Integral) {depth : Nat} (hd : j.depth ≤ depth)
    {rest : List Char} (hr : Breaks rest) :
    readTree (stepsFor (j.chars ++ rest)) depth (j.chars ++ rest) = .ok (j, rest) := by
  have hf : j.chars.length ≤ stepsFor (j.chars ++ rest) := by
    rw [stepsFor, List.length_append]
    omega
  exact readTree_chars hj hf hd hr

theorem readRoot_chars {j : Json} (hi : j.Integral) (hd : j.depth ≤ depthLimit) :
    readRoot j.chars = .ok (j, []) := by
  have hread := readTree_stepsFor hi hd breaks_nil
  rwa [List.append_nil] at hread

end Trees

section Normal

/-- A key past all others goes to the end. -/
theorem insert_concat {k : String} {v : Json} {ms : List (String × Json)}
    (h : ∀ m ∈ ms, m.1 < k) : insert k v ms = ms ++ [(k, v)] := by
  induction ms with
  | nil => rfl
  | cons m ms ih =>
    obtain ⟨l, w⟩ := m
    have hlt : l < k := h (l, w) List.mem_cons_self
    have hrest : ∀ m ∈ ms, m.1 < k := fun m hm => h m (List.mem_cons_of_mem _ hm)
    rw [insert, if_neg (lt_asymm hlt), if_neg hlt.ne', ih hrest, List.cons_append]

theorem foldl_insert (acc : List (String × Json)) {ms : List (String × Json)}
    (h : (acc ++ ms).Pairwise fun m n => m.1 < n.1) :
    ms.foldl (fun ms (k, v) => insert k v ms) acc = acc ++ ms := by
  induction ms generalizing acc with
  | nil => rw [List.foldl_nil, List.append_nil]
  | cons m ms ih =>
    obtain ⟨k, v⟩ := m
    have hlt : ∀ m ∈ acc, m.1 < k := fun m hm =>
      (List.pairwise_append.mp h).2.2 m hm (k, v) List.mem_cons_self
    have hsplit : acc ++ (k, v) :: ms = (acc ++ [(k, v)]) ++ ms := by
      rw [List.append_assoc, List.singleton_append]
    rw [List.foldl_cons]
    simp only [insert_concat hlt]
    rw [ih (acc ++ [(k, v)]) (hsplit ▸ h), hsplit]

theorem ofMembers_of_pairwise {ms : List (String × Json)}
    (h : ms.Pairwise fun m n => m.1 < n.1) : ofMembers ms = .object ms :=
  congrArg Json.object (foldl_insert [] h)

mutual

theorem normalize_of_ordered : {j : Json} → j.Ordered → j.normalize = j
  | .null, _ | .bool _, _ | .number _, _ | .string _, _ => rfl
  | .array _, h => congrArg Json.array (normalizeItems_of_ordered h)
  | .object _, h => by
    rw [normalize, normalizeMembers_of_ordered h.2, ofMembers_of_pairwise h.1]

theorem normalizeItems_of_ordered : {js : List Json} → OrderedItems js → normalizeItems js = js
  | [], _ => rfl
  | j :: js, h => by
    rw [normalizeItems, normalize_of_ordered h.1, normalizeItems_of_ordered h.2]

theorem normalizeMembers_of_ordered :
    {ms : List (String × Json)} → OrderedMembers ms → normalizeMembers ms = ms
  | [], _ => rfl
  | (k, j) :: ms, h => by
    rw [normalizeMembers, normalize_of_ordered h.1, normalizeMembers_of_ordered h.2]

end

end Normal

section Tagged

variable {key tag : String} {known : String → Bool}

theorem readTaggedMembers_member {depth fuel : Nat} {found : String} {acc : List (String × Json)}
    {name : String} (hn : name ≠ key) {j : Json} {rest : List Char}
    (h : readTree (stepsFor (j.chars ++ rest)) depth (j.chars ++ rest) = .ok (j, rest)) :
    readTaggedMembers key known depth (fuel + 1) (some found) acc
        (quote name ++ ':' :: (j.chars ++ rest))
      = match readSeparator '\x7d' rest with
        | .error e => .error e
        | .ok (.close rest) => .ok ((found, .members ((name, j) :: acc).reverse), rest)
        | .ok (.more rest) =>
          readTaggedMembers key known depth fuel (some found) ((name, j) :: acc) rest := by
  rw [quote_append, readTaggedMembers, readString_quote]
  cases hnext : readSeparator '\x7d' rest with
  | error e => simp only [readColon_cons, h, if_neg hn, hnext]
  | ok next => cases next <;> simp only [readColon_cons, h, if_neg hn, hnext]

/-- The members after the tag. -/
theorem readTaggedMembers_memberChars {depth fuel : Nat} {m : String × Json}
    {ms : List (String × Json)} (hm : IntegralMembers (m :: ms)) (hk : ∀ n ∈ m :: ms, n.1 ≠ key)
    (hf : ms.length < fuel) (hd : membersDepth (m :: ms) ≤ depth) (acc : List (String × Json))
    (rest : List Char) :
    readTaggedMembers key known depth fuel (some tag) acc (memberChars (m :: ms) ++ '\x7d' :: rest)
      = .ok ((tag, .members (acc.reverse ++ m :: ms)), rest) := by
  induction ms generalizing m acc fuel with
  | nil =>
    obtain ⟨name, j⟩ := m
    obtain ⟨fuel, rfl⟩ := Nat.exists_eq_add_one.mpr (Nat.zero_lt_of_lt hf)
    have hread := readTree_stepsFor hm.1 (le_trans (le_max_left _ _) hd) (breaks_brace rest)
    rw [memberChars, List.append_assoc, List.cons_append,
      readTaggedMembers_member (hk (name, j) List.mem_cons_self) hread, readSeparator_close rfl,
      List.reverse_cons]
  | cons n ns ih =>
    obtain ⟨name, j⟩ := m
    obtain ⟨fuel, rfl⟩ := Nat.exists_eq_add_one.mpr (Nat.zero_lt_of_lt hf)
    have hread := readTree_stepsFor hm.1 (le_trans (le_max_left _ _) hd)
      (breaks_comma (memberChars (n :: ns) ++ '\x7d' :: rest))
    have hnext := ih hm.2 (fun l hl => hk l (List.mem_cons_of_mem _ hl))
      (Nat.lt_of_succ_lt_succ hf) (le_trans (le_max_right _ _) hd) ((name, j) :: acc)
    rw [memberChars_cons_cons, List.append_assoc, List.append_assoc, List.cons_append,
      List.cons_append, readTaggedMembers_member (hk (name, j) List.mem_cons_self) hread,
      readSeparator_comma (.inr rfl) ((starts_memberChars n ns).append _)]
    simp only [hnext, List.reverse_cons, List.append_assoc, List.singleton_append]

theorem readTag_quote (h : known tag = true) (rest : List Char) :
    readTag known (quote tag ++ rest) = .ok (tag, rest) := by
  rw [quote_append, readTag, skipSpace_cons rfl]
  simp only [readString_quote, h, if_true]

theorem readTaggedMembers_tag {depth fuel : Nat} (h : known tag = true) (rest : List Char) :
    readTaggedMembers key known depth (fuel + 1) none [] (quote key ++ ':' :: (quote tag ++ rest))
      = match readSeparator '\x7d' rest with
        | .error e => .error e
        | .ok (.close rest) => .ok ((tag, .members []), rest)
        | .ok (.more rest) => readTaggedMembers key known depth fuel (some tag) [] rest := by
  rw [quote_append, readTaggedMembers, readString_quote]
  simp only [readColon_cons, readTag_quote h]
  rfl

theorem readTaggedMembers_record {depth fuel : Nat} {ms : List (String × Json)}
    (ht : known tag = true) (hm : IntegralMembers ms) (hk : ∀ n ∈ ms, n.1 ≠ key)
    (hd : membersDepth ms ≤ depth) (hf : ms.length < fuel) (rest : List Char) :
    readTaggedMembers key known depth fuel none []
        (memberChars ((key, .string tag) :: ms) ++ '\x7d' :: rest)
      = .ok ((tag, .members ms), rest) := by
  obtain ⟨fuel, rfl⟩ := Nat.exists_eq_add_one.mpr (Nat.zero_lt_of_lt hf)
  cases ms with
  | nil =>
    rw [memberChars, chars, List.append_assoc, List.cons_append, readTaggedMembers_tag ht,
      readSeparator_close rfl]
  | cons n ns =>
    rw [List.length_cons] at hf
    have hnext : readTaggedMembers key known depth fuel (some tag) []
        (memberChars (n :: ns) ++ '\x7d' :: rest) = _ :=
      readTaggedMembers_memberChars hm hk (by omega) hd [] rest
    rw [memberChars_cons_cons, chars, List.append_assoc, List.append_assoc, List.cons_append,
      List.cons_append, readTaggedMembers_tag ht,
      readSeparator_comma (.inr rfl) ((starts_memberChars n ns).append _)]
    simp only [hnext, List.reverse_nil, List.nil_append]

theorem length_le_memberChars (ms : List (String × Json)) :
    ms.length ≤ (memberChars ms).length := by
  induction ms with
  | nil => exact Nat.zero_le _
  | cons m ms ih =>
    obtain ⟨k, j⟩ := m
    cases ms with
    | nil =>
      simp only [memberChars, List.length_append, List.length_cons, List.length_nil]
      omega
    | cons n ns =>
      simp only [memberChars_cons_cons, List.length_append, List.length_cons] at ih ⊢
      omega

/-- A record written with its tag first is read back from in front of any rest. -/
theorem readTagged_object {depth : Nat} {ms : List (String × Json)} (ht : known tag = true)
    (hm : IntegralMembers ms) (hk : ∀ n ∈ ms, n.1 ≠ key) (hd : membersDepth ms ≤ depth)
    (rest : List Char) :
    readTagged key known depth ((Json.object ((key, .string tag) :: ms)).chars ++ rest)
      = .ok ((tag, .members ms), rest) := by
  have hlength := length_le_memberChars ((key, .string tag) :: ms)
  have hfuel : ms.length < (memberChars ((key, .string tag) :: ms) ++ '\x7d' :: rest).length := by
    rw [List.length_cons] at hlength
    rw [List.length_append]
    omega
  rw [object_chars_append, readTagged, skipSpace_cons rfl,
    ← readTaggedMembers_record ht hm hk hd hfuel rest]
  have hstarts := (starts_memberChars (key, .string tag) ms).append ('\x7d' :: rest)
  simp only [hstarts.skipSpace_eq]
  obtain ⟨c, tail, hc, -, -, hbrace⟩ := hstarts
  rw [hc]
  split
  · contradiction
  · simp_all
  · rfl

end Tagged

end ShipBridge.Json
