import ShipBridge.Proofs.Json.RoundTrip

/-!
# What reading leaves of a value

A value that has been read is nested no deeper than the reader allows. Bringing it into the form in
which values are kept puts the members of its objects in order, takes nothing in that was not there
before, and does nothing to a value that has been through it already.
-/

namespace ShipBridge.Json

/-! ## Lists of items and members -/

theorem integralItems_iff {js : List Json} : IntegralItems js ↔ ∀ j ∈ js, j.Integral := by
  induction js with
  | nil => exact ⟨fun _ => nofun, fun _ => trivial⟩
  | cons j js ih => rw [IntegralItems, ih, List.forall_mem_cons]

theorem integralMembers_iff {ms : List (String × Json)} :
    IntegralMembers ms ↔ ∀ m ∈ ms, m.2.Integral := by
  induction ms with
  | nil => exact ⟨fun _ => nofun, fun _ => trivial⟩
  | cons m ms ih => rw [IntegralMembers, ih, List.forall_mem_cons]

theorem orderedMembers_iff {ms : List (String × Json)} :
    OrderedMembers ms ↔ ∀ m ∈ ms, m.2.Ordered := by
  induction ms with
  | nil => exact ⟨fun _ => nofun, fun _ => trivial⟩
  | cons m ms ih => rw [OrderedMembers, ih, List.forall_mem_cons]

theorem itemsDepth_le_iff {js : List Json} {d : Nat} :
    itemsDepth js ≤ d ↔ ∀ j ∈ js, j.depth ≤ d := by
  induction js with
  | nil => exact ⟨fun _ => nofun, fun _ => Nat.zero_le d⟩
  | cons j js ih => rw [itemsDepth, Nat.max_le, ih, List.forall_mem_cons]

theorem membersDepth_le_iff {ms : List (String × Json)} {d : Nat} :
    membersDepth ms ≤ d ↔ ∀ m ∈ ms, m.2.depth ≤ d := by
  induction ms with
  | nil => exact ⟨fun _ => nofun, fun _ => Nat.zero_le d⟩
  | cons m ms ih => rw [membersDepth, Nat.max_le, ih, List.forall_mem_cons]

/-! ## Depth -/

theorem eq_of_readLiteral {value j : Json} {expected cs rest : List Char}
    (h : readLiteral value expected cs = .ok (j, rest)) : j = value := by
  induction expected generalizing cs with
  | nil => exact (Prod.mk.inj (Except.ok.inj h)).1.symm
  | cons e es ih =>
    cases cs with
    | nil => cases h
    | cons c cs =>
      rw [readLiteral] at h
      split at h
      · exact ih h
      · cases h

theorem of_map_eq_ok {α β : Type} {x : Except Fault α} {f : α → β} {b : β}
    (h : x.map f = .ok b) : ∃ a, x = .ok a ∧ f a = b := by
  cases x with
  | error e => cases h
  | ok a => exact ⟨a, rfl, Except.ok.inj h⟩

theorem depth_of_readNumber {positive : Bool} {cs rest : List Char} {j : Json}
    (h : readNumber positive cs = .ok (j, rest)) : j.depth = 0 := by
  obtain ⟨p, -, heq⟩ := of_map_eq_ok h
  obtain ⟨rfl, -⟩ := Prod.mk.inj heq
  rfl

/-- Items that have been read begin with one; then the array ends or more follow. -/
theorem item_of_readItems {fuel depth : Nat} {acc js : List Json} {cs rest : List Char}
    (h : readItems (fuel + 1) depth acc cs = .ok (js, rest)) :
    ∃ j later, readTree fuel depth cs = .ok (j, later) ∧
      ((readSeparator ']' later = .ok (.close rest) ∧ js = (j :: acc).reverse) ∨
        ∃ after, readSeparator ']' later = .ok (.more after) ∧
          readItems fuel depth (j :: acc) after = .ok (js, rest)) := by
  rw [readItems] at h
  split at h
  · cases h
  · next j later hread =>
    refine ⟨j, later, hread, ?_⟩
    split at h
    · cases h
    · next after hsep =>
      obtain ⟨rfl, rfl⟩ := Prod.mk.inj (Except.ok.inj h)
      exact .inl ⟨hsep, rfl⟩
    · next after hsep => exact .inr ⟨after, hsep, h⟩

/-- Members that have been read begin with a key and its value; then the object ends or more
follow. -/
theorem member_of_readMembers {fuel depth : Nat} {acc ms : List (String × Json)}
    {cs rest : List Char} (h : readMembers (fuel + 1) depth acc cs = .ok (ms, rest)) :
    ∃ tail key afterKey afterColon j later, cs = '"' :: tail ∧
      readString tail = .ok (key, afterKey) ∧ readColon afterKey = .ok afterColon ∧
      readTree fuel depth afterColon = .ok (j, later) ∧
      ((readSeparator '\x7d' later = .ok (.close rest) ∧ ms = ((key, j) :: acc).reverse) ∨
        ∃ after, readSeparator '\x7d' later = .ok (.more after) ∧
          readMembers fuel depth ((key, j) :: acc) after = .ok (ms, rest)) := by
  unfold readMembers at h
  split at h
  · next tail =>
    split at h
    · cases h
    · next key afterKey hkey =>
      split at h
      · cases h
      · next afterColon hcolon =>
        split at h
        · cases h
        · next j later hread =>
          refine ⟨tail, key, afterKey, afterColon, j, later, rfl, hkey, hcolon, hread, ?_⟩
          split at h
          · cases h
          · next after hsep =>
            obtain ⟨rfl, rfl⟩ := Prod.mk.inj (Except.ok.inj h)
            exact .inl ⟨hsep, rfl⟩
          · next after hsep => exact .inr ⟨after, hsep, h⟩
  · cases h

-- The recursion is that of the reader, on its fuel. Behind each bracket the depth that is left is
-- one less; `acc` holds what was read before.
mutual

theorem depth_le_of_readTree {fuel depth : Nat} {cs rest : List Char} {j : Json}
    (h : readTree fuel depth cs = .ok (j, rest)) : j.depth ≤ depth := by
  match fuel with
  | 0 => cases h
  | fuel + 1 =>
    unfold readTree at h
    split at h
    · cases h
    · exact eq_of_readLiteral h ▸ Nat.zero_le depth
    · exact eq_of_readLiteral h ▸ Nat.zero_le depth
    · exact eq_of_readLiteral h ▸ Nat.zero_le depth
    · obtain ⟨p, -, heq⟩ := of_map_eq_ok h
      obtain ⟨rfl, -⟩ := Prod.mk.inj heq
      exact Nat.zero_le depth
    · exact (depth_of_readNumber h).trans_le (Nat.zero_le depth)
    · split at h
      · cases h
      · split at h
        · cases h
        · obtain ⟨rfl, -⟩ := Prod.mk.inj (Except.ok.inj h)
          exact Nat.succ_le_succ (Nat.zero_le _)
        · obtain ⟨p, hitems, heq⟩ := of_map_eq_ok h
          obtain ⟨rfl, -⟩ := Prod.mk.inj heq
          exact Nat.succ_le_succ (itemsDepth_le_iff.mpr (depth_le_of_readItems hitems nofun))
    · split at h
      · cases h
      · split at h
        · cases h
        · obtain ⟨rfl, -⟩ := Prod.mk.inj (Except.ok.inj h)
          exact Nat.succ_le_succ (Nat.zero_le _)
        · obtain ⟨p, hmembers, heq⟩ := of_map_eq_ok h
          obtain ⟨rfl, -⟩ := Prod.mk.inj heq
          exact Nat.succ_le_succ (membersDepth_le_iff.mpr (depth_le_of_readMembers hmembers nofun))
    · split_ifs at h
      exact (depth_of_readNumber h).trans_le (Nat.zero_le depth)

theorem depth_le_of_readItems {fuel depth : Nat} {acc js : List Json} {cs rest : List Char}
    (h : readItems fuel depth acc cs = .ok (js, rest)) (hacc : ∀ j ∈ acc, j.depth ≤ depth) :
    ∀ j ∈ js, j.depth ≤ depth := by
  match fuel with
  | 0 => cases h
  | fuel + 1 =>
    obtain ⟨j, later, hread, hnext⟩ := item_of_readItems h
    have hmore : ∀ i ∈ j :: acc, i.depth ≤ depth :=
      List.forall_mem_cons.mpr ⟨depth_le_of_readTree hread, hacc⟩
    rcases hnext with ⟨-, rfl⟩ | ⟨after, -, hitems⟩
    · exact fun i hi => hmore i (List.mem_reverse.mp hi)
    · exact depth_le_of_readItems hitems hmore

theorem depth_le_of_readMembers {fuel depth : Nat} {acc ms : List (String × Json)}
    {cs rest : List Char} (h : readMembers fuel depth acc cs = .ok (ms, rest))
    (hacc : ∀ m ∈ acc, m.2.depth ≤ depth) : ∀ m ∈ ms, m.2.depth ≤ depth := by
  match fuel with
  | 0 => cases h
  | fuel + 1 =>
    obtain ⟨_, key, _, _, j, _, -, -, -, hread, hnext⟩ := member_of_readMembers h
    have hmore : ∀ m ∈ (key, j) :: acc, m.2.depth ≤ depth :=
      List.forall_mem_cons.mpr ⟨depth_le_of_readTree hread, hacc⟩
    rcases hnext with ⟨-, rfl⟩ | ⟨after, -, hmembers⟩
    · exact fun m hm => hmore m (List.mem_reverse.mp hm)
    · exact depth_le_of_readMembers hmembers hmore

end

theorem depth_le_of_readRoot {cs rest : List Char} {j : Json} (h : readRoot cs = .ok (j, rest)) :
    j.depth ≤ depthLimit := depth_le_of_readTree h

/-! ## The form in which values are kept -/

theorem mem_insert {k : String} {v : Json} {ms : List (String × Json)} {m : String × Json}
    (h : m ∈ insert k v ms) : m = (k, v) ∨ m ∈ ms := by
  induction ms with
  | nil => exact .inl (List.mem_singleton.mp h)
  | cons n ms ih =>
    obtain ⟨l, w⟩ := n
    rw [insert] at h
    split_ifs at h
    · exact List.mem_cons.mp h
    · exact (List.mem_cons.mp h).imp_right (List.mem_cons_of_mem _)
    · rcases List.mem_cons.mp h with rfl | h
      · exact .inr List.mem_cons_self
      · exact (ih h).imp_right (List.mem_cons_of_mem _)

theorem pairwise_insert {k : String} {v : Json} {ms : List (String × Json)}
    (h : ms.Pairwise fun m n => m.1 < n.1) : (insert k v ms).Pairwise fun m n => m.1 < n.1 := by
  induction ms with
  | nil => exact List.pairwise_singleton _ _
  | cons n ms ih =>
    obtain ⟨l, w⟩ := n
    obtain ⟨hfirst, hrest⟩ := List.pairwise_cons.mp h
    rw [insert]
    split_ifs with hlt heq
    · exact List.pairwise_cons.mpr
        ⟨List.forall_mem_cons.mpr ⟨hlt, fun m hm => hlt.trans (hfirst m hm)⟩, h⟩
    · exact List.pairwise_cons.mpr ⟨fun m hm => heq ▸ hfirst m hm, hrest⟩
    · refine List.pairwise_cons.mpr ⟨fun m hm => ?_, ih hrest⟩
      rcases mem_insert hm with rfl | hm
      · exact lt_of_le_of_ne (not_lt.mp hlt) (Ne.symm heq)
      · exact hfirst m hm

theorem foldl_insert_pairwise {acc : List (String × Json)}
    (hacc : acc.Pairwise fun m n => m.1 < n.1) (ms : List (String × Json)) :
    ∃ sorted, ms.foldl (fun ms (k, v) => insert k v ms) acc = sorted ∧
      (sorted.Pairwise fun m n => m.1 < n.1) ∧ ∀ m ∈ sorted, m ∈ acc ∨ m ∈ ms := by
  induction ms generalizing acc with
  | nil => exact ⟨acc, rfl, hacc, fun m hm => .inl hm⟩
  | cons n ms ih =>
    obtain ⟨k, v⟩ := n
    obtain ⟨sorted, heq, hsorted, hmem⟩ := ih (pairwise_insert (k := k) (v := v) hacc)
    refine ⟨sorted, heq, hsorted, fun m hm => ?_⟩
    rcases hmem m hm with h | h
    · rcases mem_insert h with rfl | h
      · exact .inr List.mem_cons_self
      · exact .inl h
    · exact .inr (List.mem_cons_of_mem _ h)

theorem ofMembers_eq (ms : List (String × Json)) : ∃ sorted, ofMembers ms = .object sorted ∧
    (sorted.Pairwise fun m n => m.1 < n.1) ∧ ∀ m ∈ sorted, m ∈ ms := by
  obtain ⟨sorted, heq, hsorted, hmem⟩ := foldl_insert_pairwise .nil ms
  exact ⟨sorted, congrArg Json.object heq, hsorted,
    fun m hm => (hmem m hm).resolve_left List.not_mem_nil⟩

/-- A value that takes the place of another: its objects are ordered, its numbers are integers if
those of the other are, and it is nested no deeper. -/
structure Tidies (j k : Json) : Prop where
  ordered : k.Ordered
  integral : j.Integral → k.Integral
  depth : k.depth ≤ j.depth

mutual

theorem tidies_normalize : (j : Json) → j.Tidies j.normalize
  | .null | .bool _ | .number _ | .string _ => ⟨trivial, id, Nat.le_refl _⟩
  | .array js => by
    obtain ⟨hordered, hintegral, hdepth⟩ := tidies_normalizeItems js
    exact ⟨hordered, hintegral, Nat.succ_le_succ hdepth⟩
  | .object ms => by
    obtain ⟨hordered, hintegral, hdepth⟩ := tidies_normalizeMembers ms
    obtain ⟨sorted, heq, hsorted, hmem⟩ := ofMembers_eq (normalizeMembers ms)
    rw [orderedMembers_iff] at hordered
    rw [membersDepth_le_iff] at hdepth
    rw [normalize, heq]
    refine ⟨⟨hsorted, orderedMembers_iff.mpr fun m hm => hordered m (hmem m hm)⟩,
      fun h => integralMembers_iff.mpr fun m hm => ?_,
      Nat.succ_le_succ (membersDepth_le_iff.mpr fun m hm => hdepth m (hmem m hm))⟩
    exact integralMembers_iff.mp (hintegral h) m (hmem m hm)

theorem tidies_normalizeItems : (js : List Json) →
    OrderedItems (normalizeItems js) ∧ (IntegralItems js → IntegralItems (normalizeItems js)) ∧
      itemsDepth (normalizeItems js) ≤ itemsDepth js
  | [] => ⟨trivial, id, Nat.le_refl _⟩
  | j :: js => by
    have hfirst := tidies_normalize j
    obtain ⟨hordered, hintegral, hdepth⟩ := tidies_normalizeItems js
    exact ⟨⟨hfirst.ordered, hordered⟩, fun h => ⟨hfirst.integral h.1, hintegral h.2⟩,
      max_le_max hfirst.depth hdepth⟩

theorem tidies_normalizeMembers : (ms : List (String × Json)) →
    OrderedMembers (normalizeMembers ms) ∧
      (IntegralMembers ms → IntegralMembers (normalizeMembers ms)) ∧
        membersDepth (normalizeMembers ms) ≤ membersDepth ms
  | [] => ⟨trivial, id, Nat.le_refl _⟩
  | (_, j) :: ms => by
    have hfirst := tidies_normalize j
    obtain ⟨hordered, hintegral, hdepth⟩ := tidies_normalizeMembers ms
    exact ⟨⟨hfirst.ordered, hordered⟩, fun h => ⟨hfirst.integral h.1, hintegral h.2⟩,
      max_le_max hfirst.depth hdepth⟩

end

theorem ordered_normalize (j : Json) : j.normalize.Ordered := (tidies_normalize j).ordered

/-- The values in the form in which values are kept are those that have been brought into it. -/
theorem ordered_iff {j : Json} : j.Ordered ↔ j.normalize = j :=
  ⟨normalize_of_ordered, fun h => h ▸ ordered_normalize j⟩

theorem normalize_normalize (j : Json) : j.normalize.normalize = j.normalize :=
  normalize_of_ordered (ordered_normalize j)

theorem normalize_eq_null {j : Json} : j.normalize = .null ↔ j = .null := by
  cases j <;> simp [normalize, ofMembers]

/-- A value without doubles, nested at most so deep. -/
def Fits (depth : Nat) (j : Json) : Prop := j.Integral ∧ j.depth ≤ depth

theorem Fits.normalize {d : Nat} {j : Json} (h : j.Fits d) : j.normalize.Fits d :=
  ⟨(tidies_normalize j).integral h.1, (tidies_normalize j).depth.trans h.2⟩

theorem fits_string (d : Nat) (s : String) : (Json.string s).Fits d := ⟨trivial, Nat.zero_le d⟩

end ShipBridge.Json
