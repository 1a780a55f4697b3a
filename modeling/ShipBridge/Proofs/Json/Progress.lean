import ShipBridge.Proofs.Json.Normal

/-!
# What reading takes off a text

Whatever the reader reads, it takes at least one character off the text, and a step of fuel for no
more characters than that. A value that has been read at all is therefore read again, and the same,
with any fuel that covers the characters it took, and wherever more depth is left.
-/

namespace ShipBridge.Json

section Numbers

variable {positive : Bool} {n : Nat} {e : Int} {cs rest : List Char} {k : Number}

theorem length_exponentDigits_le (n : Nat) (cs : List Char) :
    (exponentDigits n cs).2.length ≤ cs.length := by
  fun_induction exponentDigits n cs with
  | case1 => exact le_rfl
  | case2 => exact le_rfl
  | case3 _ _ _ _ _ _ ih => exact ih.trans (Nat.le_succ _)
  | case4 _ c cs => exact (List.length_dropWhile_le _ cs).trans (Nat.le_succ _)

theorem length_le_of_readExponent (h : readExponent positive n e cs = .ok (k, rest)) :
    rest.length ≤ cs.length := by
  unfold readExponent at h
  split at h
  next up digits hsigned =>
  have hlen : digits.length ≤ cs.length := by
    split at hsigned <;> obtain ⟨-, rfl⟩ := Prod.mk.inj hsigned <;> simp
  refine le_trans ?_ hlen
  cases digits with
  | nil => cases h
  | cons c digits =>
    have hlen (d : Nat) := (length_exponentDigits_le d digits).trans (Nat.le_succ _)
    simp only at h
    split at h
    · cases h
    · next d _ =>
      split at h
      · next heq =>
        obtain ⟨_, -, hrest⟩ := of_map_eq_ok h
        obtain ⟨-, rfl⟩ := Prod.mk.inj hrest
        have h := hlen d
        rwa [heq] at h
      · next heq =>
        split_ifs at h
        obtain ⟨-, rfl⟩ := Prod.mk.inj (Except.ok.inj h)
        have h := hlen d
        rwa [heq] at h

theorem length_le_of_readScale (h : readScale positive n e cs = .ok (k, rest)) :
    rest.length ≤ cs.length := by
  unfold readScale at h
  split at h
  · exact (length_le_of_readExponent h).trans (Nat.le_succ _)
  · exact (length_le_of_readExponent h).trans (Nat.le_succ _)
  · obtain ⟨_, -, heq⟩ := of_map_eq_ok h
    obtain ⟨-, rfl⟩ := Prod.mk.inj heq
    exact le_rfl

theorem length_le_of_readFraction {any : Bool} (h : readFraction positive n e any cs = .ok (k, rest)) :
    rest.length ≤ cs.length := by
  fun_induction readFraction positive n e any cs with
  | case1 => exact length_le_of_readScale h
  | case2 => cases h
  | case3 => exact length_le_of_readScale h
  | case4 => cases h
  | case5 _ _ _ _ _ _ _ _ ih => exact (ih h).trans (Nat.le_succ _)
  | case6 _ _ _ c cs =>
    exact (length_le_of_readScale h).trans ((List.length_dropWhile_le _ cs).trans (Nat.le_succ _))

theorem length_le_of_readLong (h : readLong positive n e cs = .ok (k, rest)) :
    rest.length ≤ cs.length := by
  fun_induction readLong positive n e cs with
  | case1 => exact (length_le_of_readFraction h).trans (Nat.le_succ _)
  | case2 _ _ _ _ _ ih => exact (ih h).trans (Nat.le_succ _)
  | case3 => exact length_le_of_readScale h
  | case4 => exact length_le_of_readScale h

theorem length_le_of_readTail (h : readTail positive n cs = .ok (k, rest)) :
    rest.length ≤ cs.length := by
  unfold readTail at h
  split at h
  · exact (length_le_of_readFraction h).trans (Nat.le_succ _)
  · exact (length_le_of_readExponent h).trans (Nat.le_succ _)
  · exact (length_le_of_readExponent h).trans (Nat.le_succ _)
  · obtain ⟨-, rfl⟩ := Prod.mk.inj (Except.ok.inj h)
    exact le_rfl

theorem length_le_of_readInteger (h : readInteger positive n cs = .ok (k, rest)) :
    rest.length ≤ cs.length := by
  fun_induction readInteger positive n cs with
  | case1 => exact length_le_of_readTail h
  | case2 => exact length_le_of_readTail h
  | case3 _ _ _ _ _ _ ih => exact (ih h).trans (Nat.le_succ _)
  | case4 => exact (length_le_of_readLong h).trans (Nat.le_succ _)

theorem length_lt_of_readUnsigned (h : readUnsigned positive cs = .ok (k, rest)) :
    rest.length < cs.length := by
  unfold readUnsigned at h
  split at h
  · cases h
  · split_ifs at h
    exact Nat.lt_succ_of_le (length_le_of_readTail h)
  · exact Nat.lt_succ_of_le (length_le_of_readTail h)
  · split at h
    · cases h
    · exact Nat.lt_succ_of_le (length_le_of_readInteger h)

end Numbers

theorem length_skipSpace_le (cs : List Char) : (skipSpace cs).length ≤ cs.length :=
  List.length_dropWhile_le _ cs

theorem length_lt_of_skipSpace {c : Char} {cs tail : List Char} (h : skipSpace cs = c :: tail) :
    tail.length < cs.length := by
  have hlen := length_skipSpace_le cs
  rwa [h, List.length_cons] at hlen

theorem length_lt_of_readQuoted {q : Quoting} {acc cs rest : List Char} {s : String}
    (h : readQuoted q acc cs = .ok (s, rest)) : rest.length < cs.length := by
  fun_induction readQuoted q acc cs with
  | case1 => cases h
  | case2 =>
    obtain ⟨-, rfl⟩ := Prod.mk.inj (Except.ok.inj h)
    exact Nat.lt_succ_self _
  | _ => first | cases h | (rename_i ih; exact (ih h).trans (Nat.lt_succ_self _))

theorem length_le_of_readLiteral {value j : Json} {es cs rest : List Char}
    (h : readLiteral value es cs = .ok (j, rest)) : rest.length ≤ cs.length := by
  fun_induction readLiteral value es cs with
  | case1 =>
    obtain ⟨-, rfl⟩ := Prod.mk.inj (Except.ok.inj h)
    exact le_rfl
  | case2 => cases h
  | case3 _ _ _ ih => exact (ih h).trans (Nat.le_succ _)
  | case4 => cases h

theorem length_lt_of_readColon {cs rest : List Char} (h : readColon cs = .ok rest) :
    rest.length < cs.length := by
  unfold readColon at h
  split at h
  · cases h
  · next heq =>
    obtain rfl := Except.ok.inj h
    exact length_lt_of_skipSpace heq
  · cases h

/-- The rest of the text, whichever way an item ended. -/
def Next.rest : Next → List Char
  | .close rest | .more rest => rest

theorem length_lt_of_readSeparator {close : Char} {cs : List Char} {next : Next}
    (h : readSeparator close cs = .ok next) : next.rest.length < cs.length := by
  unfold readSeparator at h
  split at h
  · cases h
  · next c tail heq =>
    have hlen := length_lt_of_skipSpace heq
    split_ifs at h
    · obtain rfl := Except.ok.inj h
      exact hlen
    · split at h
      · cases h
      · next d more hmore =>
        split_ifs at h
        obtain rfl := Except.ok.inj h
        have hle := length_skipSpace_le tail
        rw [hmore] at hle
        exact hle.trans_lt hlen

/-- Something has been read off `cs` that leaves `rest`, and is read again with any fuel that covers
what it took off, and wherever at least as many arrays and objects may be open. -/
structure Steady {α : Type} (read : Nat → Nat → Reading α) (depth : Nat) (cs rest : List Char)
    (a : α) : Prop where
  shorter : rest.length < cs.length
  again {fuel d : Nat} : depth ≤ d → cs.length ≤ rest.length + fuel → read fuel d = .ok (a, rest)

theorem length_lt_of_readNumber {positive : Bool} {cs rest : List Char} {j : Json}
    (h : readNumber positive cs = .ok (j, rest)) : rest.length < cs.length := by
  obtain ⟨_, hread, heq⟩ := of_map_eq_ok h
  obtain ⟨-, rfl⟩ := Prod.mk.inj heq
  exact length_lt_of_readUnsigned hread

/-- A value that opens no bracket is read whatever fuel and depth are left. -/
theorem readTree_scalar {c : Char} {cs tail : List Char} (h : skipSpace cs = c :: tail)
    (hc : c ≠ '[' ∧ c ≠ '\x7b') (f g d e : Nat) :
    readTree (f + 1) d cs = readTree (g + 1) e cs := by
  rw [readTree, readTree, h]
  split <;> first | rfl | (next heq => cases heq; exact absurd rfl hc.1) |
    (next heq => cases heq; exact absurd rfl hc.2)

theorem steady_scalar {c : Char} {fuel depth : Nat} {cs tail rest : List Char} {j : Json}
    (h : readTree (fuel + 1) depth cs = .ok (j, rest)) (heq : skipSpace cs = c :: tail)
    (hc : c ≠ '[' ∧ c ≠ '\x7b') (hlen : rest.length ≤ tail.length) :
    Steady (fun f d => readTree f d cs) depth cs rest j := by
  have htail := length_lt_of_skipSpace heq
  refine ⟨by omega, fun {g d} _ hg => ?_⟩
  obtain ⟨g, rfl⟩ : ∃ k, g = k + 1 := ⟨g - 1, by omega⟩
  exact (readTree_scalar heq hc g fuel d depth).trans h

theorem readTree_array {cs tail : List Char} (h : skipSpace cs = '[' :: tail) (fuel depth : Nat) :
    readTree (fuel + 1) (depth + 1) cs = match skipSpace tail with
      | [] => .error .cutShort
      | ']' :: cs => .ok (.array [], cs)
      | cs => (readItems fuel depth [] cs).map fun (js, rest) => (.array js, rest) := by
  rw [readTree, h]
  rfl

theorem readTree_object {cs tail : List Char} (h : skipSpace cs = '\x7b' :: tail)
    (fuel depth : Nat) :
    readTree (fuel + 1) (depth + 1) cs = match skipSpace tail with
      | [] => .error .cutShort
      | '\x7d' :: cs => .ok (.object [], cs)
      | cs => (readMembers fuel depth [] cs).map fun (ms, rest) => (.object ms, rest) := by
  rw [readTree, h]
  rfl

theorem Steady.map {α β : Type} {read : Nat → Nat → Reading α} {depth : Nat}
    {cs tail rest : List Char} {a : α} (h : Steady read depth tail rest a) (f : α → β)
    (hcs : tail.length ≤ cs.length) :
    Steady (fun g d => (read g d).map fun (a, rest) => (f a, rest)) depth cs rest (f a) := by
  have hlt := h.shorter
  refine ⟨by omega, fun {g d} hd hg => ?_⟩
  simp only [h.again hd (show tail.length ≤ rest.length + g by omega)]
  rfl

/-- Behind a bracket there is one step of fuel and one level of depth less. -/
theorem steady_opened {read : Nat → Nat → Reading Json} {depth : Nat} {cs tail rest : List Char}
    {j : Json} (hread : ∀ g d, readTree (g + 1) (d + 1) cs = read g d)
    (hcs : tail.length < cs.length) (h : Steady read depth tail rest j) :
    Steady (fun f d => readTree f d cs) (depth + 1) cs rest j := by
  have hlt := h.shorter
  refine ⟨by omega, fun {g d} hd hg => ?_⟩
  obtain ⟨g, rfl⟩ : ∃ k, g = k + 1 := ⟨g - 1, by omega⟩
  obtain ⟨d, rfl⟩ : ∃ k, d = k + 1 := ⟨d - 1, by omega⟩
  exact (hread g d).trans (h.again (by omega) (by omega))

-- The recursion is that of the reader, on its fuel.
mutual

theorem steady_readTree {fuel depth : Nat} {cs rest : List Char} {j : Json}
    (h : readTree fuel depth cs = .ok (j, rest)) :
    Steady (fun f d => readTree f d cs) depth cs rest j := by
  match fuel with
  | 0 => cases h
  | fuel + 1 =>
    have hread := h
    rw [readTree] at h
    split at h
    · cases h
    · next heq => exact steady_scalar hread heq (by decide) (length_le_of_readLiteral h)
    · next heq => exact steady_scalar hread heq (by decide) (length_le_of_readLiteral h)
    · next heq => exact steady_scalar hread heq (by decide) (length_le_of_readLiteral h)
    · next heq =>
      obtain ⟨_, hstring, hpair⟩ := of_map_eq_ok h
      obtain ⟨-, rfl⟩ := Prod.mk.inj hpair
      exact steady_scalar hread heq (by decide) (length_lt_of_readQuoted hstring).le
    · next heq => exact steady_scalar hread heq (by decide) (length_lt_of_readNumber h).le
    · next tail heq =>
      have htail := length_lt_of_skipSpace heq
      split at h
      · cases h
      · split at h
        · cases h
        · next after hclose =>
          obtain ⟨rfl, rfl⟩ := Prod.mk.inj (Except.ok.inj h)
          exact steady_opened (fun g d => by simp only [readTree_array heq, hclose]) htail
            ⟨length_lt_of_skipSpace hclose, fun _ _ => rfl⟩
        · obtain ⟨_, hitems, hpair⟩ := of_map_eq_ok h
          obtain ⟨rfl, rfl⟩ := Prod.mk.inj hpair
          have hsteady := (steady_readItems hitems).map Json.array (length_skipSpace_le tail)
          exact steady_opened (fun g d => by simp only [readTree_array heq]) htail hsteady
    · next tail heq =>
      have htail := length_lt_of_skipSpace heq
      split at h
      · cases h
      · split at h
        · cases h
        · next after hclose =>
          obtain ⟨rfl, rfl⟩ := Prod.mk.inj (Except.ok.inj h)
          exact steady_opened (fun g d => by simp only [readTree_object heq, hclose]) htail
            ⟨length_lt_of_skipSpace hclose, fun _ _ => rfl⟩
        · obtain ⟨_, hmembers, hpair⟩ := of_map_eq_ok h
          obtain ⟨rfl, rfl⟩ := Prod.mk.inj hpair
          have hsteady := (steady_readMembers hmembers).map Json.object (length_skipSpace_le tail)
          exact steady_opened (fun g d => by simp only [readTree_object heq]) htail hsteady
    · next c tail _ _ _ _ _ hbracket hbrace heq =>
      split_ifs at h
      exact steady_scalar hread heq ⟨hbracket, hbrace⟩
        (Nat.le_of_lt_succ (length_lt_of_readNumber h))

theorem steady_readItems {fuel depth : Nat} {acc js : List Json} {cs rest : List Char}
    (h : readItems fuel depth acc cs = .ok (js, rest)) :
    Steady (fun f d => readItems f d acc cs) depth cs rest js := by
  match fuel with
  | 0 => cases h
  | fuel + 1 =>
    obtain ⟨j, later, hread, hnext⟩ := item_of_readItems h
    have hitem := steady_readTree hread
    have hitemLt := hitem.shorter
    rcases hnext with ⟨hsep, rfl⟩ | ⟨after, hsep, hitems⟩
    · have hsepLt : rest.length < later.length := length_lt_of_readSeparator hsep
      refine ⟨by omega, fun {g d} hd hg => ?_⟩
      obtain ⟨g, rfl⟩ : ∃ k, g = k + 1 := ⟨g - 1, by omega⟩
      simp only [readItems, hitem.again hd (show cs.length ≤ later.length + g by omega), hsep]
    · have hsepLt : after.length < later.length := length_lt_of_readSeparator hsep
      have hmore := steady_readItems hitems
      have hmoreLt := hmore.shorter
      refine ⟨by omega, fun {g d} hd hg => ?_⟩
      obtain ⟨g, rfl⟩ : ∃ k, g = k + 1 := ⟨g - 1, by omega⟩
      simp only [readItems, hitem.again hd (show cs.length ≤ later.length + g by omega), hsep]
      exact hmore.again hd (by omega)

theorem steady_readMembers {fuel depth : Nat} {acc ms : List (String × Json)}
    {cs rest : List Char} (h : readMembers fuel depth acc cs = .ok (ms, rest)) :
    Steady (fun f d => readMembers f d acc cs) depth cs rest ms := by
  match fuel with
  | 0 => cases h
  | fuel + 1 =>
    obtain ⟨tail, key, afterKey, afterColon, j, later, rfl, hkey, hcolon, hread, hnext⟩ :=
      member_of_readMembers h
    have hkeyLt := length_lt_of_readQuoted hkey
    have hcolonLt := length_lt_of_readColon hcolon
    have hvalue := steady_readTree hread
    have hvalueLt := hvalue.shorter
    rcases hnext with ⟨hsep, rfl⟩ | ⟨after, hsep, hmembers⟩
    · have hsepLt : rest.length < later.length := length_lt_of_readSeparator hsep
      refine ⟨by rw [List.length_cons]; omega, fun {g d} hd hg => ?_⟩
      rw [List.length_cons] at hg
      obtain ⟨g, rfl⟩ : ∃ k, g = k + 1 := ⟨g - 1, by omega⟩
      simp only [readMembers, hkey, hcolon,
        hvalue.again hd (show afterColon.length ≤ later.length + g by omega), hsep]
    · have hsepLt : after.length < later.length := length_lt_of_readSeparator hsep
      have hmore := steady_readMembers hmembers
      have hmoreLt := hmore.shorter
      refine ⟨by rw [List.length_cons]; omega, fun {g d} hd hg => ?_⟩
      rw [List.length_cons] at hg
      obtain ⟨g, rfl⟩ : ∃ k, g = k + 1 := ⟨g - 1, by omega⟩
      simp only [readMembers, hkey, hcolon,
        hvalue.again hd (show afterColon.length ≤ later.length + g by omega), hsep]
      exact hmore.again hd (by omega)

end

/-- The fuel that the reader gives itself is enough for whatever any fuel reads. -/
theorem readTree_stepsFor_of_ok {fuel depth : Nat} {cs rest : List Char} {j : Json}
    (h : readTree fuel depth cs = .ok (j, rest)) {d : Nat} (hd : depth ≤ d) :
    readTree (stepsFor cs) d cs = .ok (j, rest) :=
  (steady_readTree h).again hd (by rw [stepsFor]; omega)

end ShipBridge.Json
