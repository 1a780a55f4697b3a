import Mathlib.Data.List.Forall2
import ShipBridge.Proofs.Json.Normal

/-!
# The fields of a record

The values of a record's fields stand in the record, so they are nested one level less than the
record itself. Where no key is repeated, the fields of an object are what their keys lead to, and
the only thing that can go wrong is that a required one is missing.
-/

namespace ShipBridge.Json

section Values

variable {j : Json}

theorem string?_eq_some {s : String} : j.string? = some s ↔ j = .string s := by
  cases j <;> simp [string?]

theorem int64?_eq_some {i : Int} : j.int64? = some i ↔ j = .ofInt i ∧ i < 0x8000000000000000 := by
  unfold int64?
  split
  · rw [Option.ite_none_right_eq_some]
    constructor
    · rintro ⟨hlt, heq⟩
      obtain rfl := Option.some.inj heq
      exact ⟨rfl, hlt⟩
    · rintro ⟨heq, hlt⟩
      obtain rfl := Number.int.inj (Json.number.inj heq)
      exact ⟨hlt, rfl⟩
  · next hint => exact ⟨nofun, fun ⟨heq, _⟩ => (hint i heq).elim⟩

end Values

section Parts

variable {r : Record} {d : Nat} {j : Json}

/-- The values that stand in a record, named or not. -/
def Record.parts : Record → List Json
  | .members ms => ms.map Prod.snd
  | .items js => js

theorem mem_of_memberField? {f : Field} {ms : List (String × Json)}
    (h : memberField? f ms = some (some j)) : (f.name, j) ∈ ms := by
  unfold memberField? at h
  split at h
  · split_ifs at h
    cases h
  · next k i hfilter =>
    obtain rfl := Option.some.inj (Option.some.inj h)
    have hmem : (k, i) ∈ ms.filter fun m => m.1 == f.name := hfilter ▸ List.mem_singleton_self _
    obtain ⟨hms, hkey⟩ := List.mem_filter.mp hmem
    rwa [← eq_of_beq hkey]
  · cases h

theorem values?_members {ms : List (String × Json)} {fs : List Field} {vs : List (Option Json)} :
    (Record.members ms).values? fs = some vs ↔
      List.Forall₂ (fun f v => memberField? f ms = some v) fs vs := by
  induction fs generalizing vs with
  | nil => simp [Record.values?, eq_comm]
  | cons f fs ih =>
    rw [Record.values?] at ih ⊢
    cases vs <;> simp [List.mapM_cons, Option.bind_eq_some_iff, ← ih]

theorem mem_of_memberFields? {fs : List Field} {ms : List (String × Json)}
    {vs : List (Option Json)} (h : List.Forall₂ (fun f v => memberField? f ms = some v) fs vs)
    (hj : some j ∈ vs) : j ∈ ms.map Prod.snd := by
  induction h with
  | nil => cases hj
  | cons hv _ ih =>
    rcases List.mem_cons.mp hj with rfl | hj
    · exact List.mem_map_of_mem (mem_of_memberField? hv)
    · exact ih hj

theorem mem_of_itemFields? {fs : List Field} {js : List Json} {vs : List (Option Json)}
    (h : itemFields? fs js = some vs) (hj : some j ∈ vs) : j ∈ js := by
  induction fs generalizing js vs with
  | nil =>
    cases js with
    | nil =>
      obtain rfl := Option.some.inj h
      cases hj
    | cons i js => cases h
  | cons f fs ih =>
    cases js with
    | nil =>
      rw [itemFields?] at h
      split_ifs at h
      obtain ⟨ws, hws, rfl⟩ := Option.map_eq_some_iff.mp h
      rcases List.mem_cons.mp hj with heq | hj
      · cases heq
      · exact ih hws hj
    | cons i js =>
      obtain ⟨ws, hws, rfl⟩ := Option.map_eq_some_iff.mp h
      rcases List.mem_cons.mp hj with heq | hj
      · exact Option.some.inj heq ▸ List.mem_cons_self
      · exact List.mem_cons_of_mem i (ih hws hj)

theorem Record.mem_parts {fs : List Field} {vs : List (Option Json)} (h : r.values? fs = some vs)
    (hj : some j ∈ vs) : j ∈ r.parts := by
  cases r with
  | items js => exact mem_of_itemFields? h hj
  | members ms => exact mem_of_memberFields? (values?_members.mp h) hj

theorem Fits.parts {tree : Json} (h : tree.Fits d) (hr : tree.record? = some r) :
    ∃ e, d = e + 1 ∧ ∀ j ∈ r.parts, j.Fits e := by
  obtain ⟨hintegral, hdepth⟩ := h
  cases tree with
  | array js =>
    obtain rfl := Option.some.inj hr
    obtain ⟨e, rfl⟩ := Nat.exists_eq_add_one.mpr (Nat.lt_of_lt_of_le (Nat.succ_pos _) hdepth)
    exact ⟨e, rfl, fun j hj => ⟨integralItems_iff.mp hintegral j hj,
      itemsDepth_le_iff.mp (Nat.le_of_succ_le_succ hdepth) j hj⟩⟩
  | object ms =>
    obtain rfl := Option.some.inj hr
    obtain ⟨e, rfl⟩ := Nat.exists_eq_add_one.mpr (Nat.lt_of_lt_of_le (Nat.succ_pos _) hdepth)
    refine ⟨e, rfl, fun j hj => ?_⟩
    obtain ⟨m, hm, rfl⟩ := List.mem_map.mp hj
    exact ⟨integralMembers_iff.mp hintegral m hm,
      membersDepth_le_iff.mp (Nat.le_of_succ_le_succ hdepth) m hm⟩
  | _ => cases hr

theorem fits_object {ms : List (String × Json)} (h : ∀ m ∈ ms, m.2.Fits d) :
    (Json.object ms).Fits (d + 1) :=
  ⟨integralMembers_iff.mpr fun m hm => (h m hm).1,
    Nat.succ_le_succ (membersDepth_le_iff.mpr fun m hm => (h m hm).2)⟩

end Parts

section Keys

variable {ms : List (String × Json)}

theorem lookup?_eq_none {key : String} : lookup? key ms = none ↔ ∀ m ∈ ms, m.1 ≠ key := by
  induction ms with
  | nil => exact ⟨fun _ => nofun, fun _ => rfl⟩
  | cons m ms ih =>
    obtain ⟨k, j⟩ := m
    rw [List.forall_mem_cons, ← ih, lookup?]
    split_ifs with hk <;> simp [hk]

theorem mem_of_lookup? {key : String} {j : Json} (h : lookup? key ms = some j) :
    (key, j) ∈ ms := by
  induction ms with
  | nil => cases h
  | cons m ms ih =>
    obtain ⟨k, i⟩ := m
    rw [lookup?] at h
    split_ifs at h with hk
    · obtain rfl := Option.some.inj h
      exact hk ▸ List.mem_cons_self
    · exact List.mem_cons_of_mem _ (ih h)

theorem lookup?_append {key : String} {ns : List (String × Json)} :
    lookup? key (ms ++ ns) = (lookup? key ms).or (lookup? key ns) := by
  induction ms with
  | nil => rfl
  | cons m ms ih =>
    rw [List.cons_append, lookup?, lookup?, ih]
    split_ifs <;> rfl

/-- Where no key is repeated, the members with a key are at most one, and it is the one found. -/
theorem filter_key (h : (ms.map Prod.fst).Nodup) (key : String) :
    (ms.filter fun m => m.1 == key) = ((lookup? key ms).map fun j => (key, j)).toList := by
  induction ms with
  | nil => rfl
  | cons m ms ih =>
    obtain ⟨k, j⟩ := m
    rw [List.map_cons, List.nodup_cons] at h
    rw [List.filter_cons, lookup?, ih h.2]
    by_cases hk : k = key
    · subst hk
      have hnone : lookup? k ms = none := lookup?_eq_none.mpr fun m hm heq =>
        h.1 (heq ▸ List.mem_map.mpr ⟨m, hm, rfl⟩)
      simp [hnone]
    · simp [hk]

theorem Ordered.nodup (h : (Json.object ms).Ordered) : (ms.map Prod.fst).Nodup :=
  List.pairwise_map.mpr (h.1.imp ne_of_lt)

theorem Ordered.of_lookup? {key : String} {j : Json} (h : (Json.object ms).Ordered)
    (hj : lookup? key ms = some j) : j.Ordered :=
  orderedMembers_iff.mp h.2 _ (mem_of_lookup? hj)

theorem memberField?_eq_some (h : (ms.map Prod.fst).Nodup) {f : Field} {v : Option Json} :
    memberField? f ms = some v ↔ lookup? f.name ms = v ∧ (f.required = true → v ≠ none) := by
  unfold memberField?
  rw [filter_key h]
  cases lookup? f.name ms with
  | some j =>
    exact ⟨fun heq => Option.some.inj heq ▸ ⟨rfl, fun _ => nofun⟩, fun ⟨heq, _⟩ => heq ▸ rfl⟩
  | none =>
    change (if f.required = true then none else some none) = some v ↔ _
    split_ifs with hf
    · exact ⟨nofun, fun ⟨heq, hv⟩ => (hv hf heq.symm).elim⟩
    · exact ⟨fun heq => ⟨Option.some.inj heq, fun h => (hf h).elim⟩, fun ⟨heq, _⟩ => heq ▸ rfl⟩

/-- The fields of an object without repeated keys. -/
theorem values?_of_nodup (h : (ms.map Prod.fst).Nodup) {fs : List Field}
    {vs : List (Option Json)} : (Record.members ms).values? fs = some vs ↔
      List.Forall₂ (fun f v => lookup? f.name ms = v ∧ (f.required = true → v ≠ none)) fs vs := by
  simp only [values?_members, memberField?_eq_some h]

end Keys

end ShipBridge.Json
