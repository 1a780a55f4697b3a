import ShipBridge.Proofs.Json.Progress
import ShipBridge.Proofs.Json.Record

/-!
# The tag among the members

A tagged record commits itself to its tag as soon as it has read it, wherever among the members that
is. The outcome is the same as if the whole object were read first and its members looked at then: a
text that holds an object is read as the tag, if it has exactly one that is known, and the members
beside it in their order, and refused for its shape if not.
-/

namespace ShipBridge.Json

/-- Does the whole text hold an object, and these members in this order? -/
def HoldsObject (cs : List Char) (ms : List (String × Json)) : Prop :=
  ∃ rest, readRoot cs = .ok (.object ms, rest) ∧ expectEnd rest = .ok ()

/-- The tag and the members beside it, `tag` being the one found before these members. -/
def tagged? (key : String) (known : String → Bool) :
    Option String → List (String × Json) → Option (String × List (String × Json))
  | tag, [] => tag.map (·, [])
  | tag, (k, j) :: ms =>
    if k = key then
      if tag.isSome then none
      else (j.string?.filter known).bind fun s => tagged? key known (some s) ms
    else (tagged? key known tag ms).map fun (t, r) => (t, (k, j) :: r)

variable {α : Type} {key : String} {known : String → Bool} {ms : List (String × Json)}

section Reading

variable {fuel depth : Nat} {cs rest : List Char}

theorem skipSpace_skipSpace (cs : List Char) : skipSpace (skipSpace cs) = skipSpace cs := by
  cases h : skipSpace cs with
  | nil => rfl
  | cons c tail =>
    have hc : isSpace c = false := by
      have hhead := List.head?_dropWhile_not isSpace cs
      rw [show cs.dropWhile isSpace = c :: tail from h] at hhead
      simpa using hhead
    exact skipSpace_cons hc tail

theorem readTree_skipSpace : readTree fuel depth (skipSpace cs) = readTree fuel depth cs := by
  cases fuel with
  | zero => rw [readTree, readTree]
  | succ fuel => rw [readTree, readTree, skipSpace_skipSpace]

theorem readTree_quote {tail : List Char} (h : skipSpace cs = '"' :: tail) :
    readTree (fuel + 1) depth cs = (readString tail).map fun (s, rest) => (.string s, rest) := by
  rw [readTree, h]
  rfl

theorem quote_of_readTree {s : String} (h : readTree fuel depth cs = .ok (.string s, rest)) :
    ∃ tail, skipSpace cs = '"' :: tail ∧ readString tail = .ok (s, rest) := by
  cases fuel with
  | zero => cases h
  | succ fuel =>
    unfold readTree at h
    split at h
    · cases h
    · cases eq_of_readLiteral h
    · cases eq_of_readLiteral h
    · cases eq_of_readLiteral h
    · next tail heq =>
      obtain ⟨p, hstring, hpair⟩ := of_map_eq_ok h
      obtain ⟨hs, rfl⟩ := Prod.mk.inj hpair
      obtain rfl := Json.string.inj hs
      exact ⟨tail, heq, hstring⟩
    · obtain ⟨p, -, hpair⟩ := of_map_eq_ok h
      cases (Prod.mk.inj hpair).1
    · split at h
      · cases h
      · split at h
        · cases h
        · cases (Prod.mk.inj (Except.ok.inj h)).1
        · obtain ⟨p, -, hpair⟩ := of_map_eq_ok h
          cases (Prod.mk.inj hpair).1
    · split at h
      · cases h
      · split at h
        · cases h
        · cases (Prod.mk.inj (Except.ok.inj h)).1
        · obtain ⟨p, -, hpair⟩ := of_map_eq_ok h
          cases (Prod.mk.inj hpair).1
    · split_ifs at h
      obtain ⟨p, -, hpair⟩ := of_map_eq_ok h
      cases (Prod.mk.inj hpair).1

/-- The reader of a tag reads any other value to its end before it refuses it, or refuses it at its
bracket. -/
theorem readTag_of_readTree {j : Json} (h : readTree fuel depth cs = .ok (j, rest))
    (hd : depth ≤ depthLimit) :
    readTag known cs = match j.string?.filter known with
      | some s => .ok (s, rest)
      | none => .error .shape := by
  have hroot : readRoot (skipSpace cs) = .ok (j, rest) :=
    readTree_stepsFor_of_ok (readTree_skipSpace.trans h) hd
  by_cases hj : ∃ s, j = .string s
  · obtain ⟨s, rfl⟩ := hj
    obtain ⟨tail, heq, hstring⟩ := quote_of_readTree h
    cases hs : known s <;> simp [readTag, heq, hstring, string?, Option.filter, hs]
  · have hnone : j.string? = none := by
      cases j with
      | string s => exact absurd ⟨s, rfl⟩ hj
      | _ => rfl
    rw [hnone]
    unfold readTag
    split
    · next heq =>
      rw [heq] at hroot
      cases hroot
    · next tail heq =>
      have hquote : readTree (stepsFor (skipSpace cs)) depthLimit (skipSpace cs) = _ :=
        readTree_quote ((skipSpace_skipSpace cs).trans heq)
      obtain ⟨p, -, hpair⟩ := of_map_eq_ok (hquote.symm.trans hroot)
      exact absurd ⟨p.1, (Prod.mk.inj hpair).1.symm⟩ hj
    · rfl
    · rfl
    · rw [hroot]
      rfl

/-- What becomes of a tagged record whose tag and other members are these, `before` standing before
them, last first. -/
def conclude (before : List (String × Json)) (rest : List Char) :
    Option (String × List (String × Json)) → Reading (String × Record)
  | none => .error .shape
  | some (t, r) => .ok ((t, .members (before.reverse ++ r)), rest)

/-- The reader of a tagged object at what follows a member: `new` are the members from here on. -/
def Goes (key : String) (known : String → Bool) (depth g : Nat) (new : List (String × Json))
    (rest : List Char) : Next → Prop
  | .close after => new = [] ∧ after = rest
  | .more after => ∀ tag before, readTaggedMembers key known depth g tag before after =
      conclude before rest (tagged? key known tag new)

theorem readTaggedMembers_step {name : String} {j : Json} {afterKey afterColon later : List Char}
    (hkey : readString cs = .ok (name, afterKey)) (hcolon : readColon afterKey = .ok afterColon)
    (hread : readTree fuel depth afterColon = .ok (j, later)) (hd : depth ≤ depthLimit)
    {next : Next} (hsep : readSeparator '\x7d' later = .ok next) {new : List (String × Json)}
    {g : Nat} (hnext : Goes key known depth g new rest next) (tag : Option String)
    (before : List (String × Json)) :
    readTaggedMembers key known depth (g + 1) tag before ('"' :: cs) =
      conclude before rest (tagged? key known tag ((name, j) :: new)) := by
  rw [readTaggedMembers, hkey, tagged?]
  by_cases hname : name = key
  · simp only [hname, if_true]
    cases tag with
    | some t => rfl
    | none =>
      simp only [hcolon, readTag_of_readTree hread hd, Option.isSome_none, Bool.false_eq_true,
        if_false]
      cases j.string?.filter known with
      | none => rfl
      | some s =>
        simp only [hsep, Option.bind_some]
        cases next with
        | close after =>
          obtain ⟨rfl, rfl⟩ := hnext
          simp [conclude, tagged?]
        | more after => exact hnext _ _
  · simp only [hname, if_false, hcolon, readTree_stepsFor_of_ok hread le_rfl, hsep]
    cases next with
    | close after =>
      obtain ⟨rfl, rfl⟩ := hnext
      cases tag <;> simp [conclude, tagged?]
    | more after =>
      simp only [hnext tag ((name, j) :: before)]
      cases tagged? key known tag new <;> simp [conclude]

variable (key known)

/-- An object that has been read is read alike as a tagged record. -/
theorem readTaggedMembers_of_readMembers {acc : List (String × Json)}
    (h : readMembers fuel depth acc cs = .ok (ms, rest)) (hd : depth ≤ depthLimit) :
    ∃ new, ms = acc.reverse ++ new ∧ ∀ g tag before, cs.length ≤ rest.length + g →
      readTaggedMembers key known depth g tag before cs =
        conclude before rest (tagged? key known tag new) := by
  induction fuel generalizing acc cs with
  | zero => cases h
  | succ fuel ih =>
    have hshorter := (steady_readMembers h).shorter
    obtain ⟨tail, name, afterKey, afterColon, j, later, rfl, hkey, hcolon, hread, hnext⟩ :=
      member_of_readMembers h
    have hkeyLt := length_lt_of_readQuoted hkey
    have hcolonLt := length_lt_of_readColon hcolon
    have hvalueLt := (steady_readTree hread).shorter
    rcases hnext with ⟨hsep, rfl⟩ | ⟨after, hsep, hmembers⟩
    · refine ⟨[(name, j)], List.reverse_cons, fun g tag before hg => ?_⟩
      obtain ⟨g, rfl⟩ : ∃ k, g = k + 1 := ⟨g - 1, by omega⟩
      exact readTaggedMembers_step hkey hcolon hread hd hsep ⟨rfl, rfl⟩ tag before
    · have hsepLt : after.length < later.length := length_lt_of_readSeparator hsep
      obtain ⟨new, rfl, hnew⟩ := ih hmembers
      refine ⟨(name, j) :: new, by simp, fun g tag before hg => ?_⟩
      rw [List.length_cons] at hg hshorter
      obtain ⟨g, rfl⟩ : ∃ k, g = k + 1 := ⟨g - 1, by omega⟩
      exact readTaggedMembers_step hkey hcolon hread hd hsep
        (fun tag before => hnew g tag before (by omega)) tag before

variable {key known}

theorem members_of_readTree (h : readTree fuel depth cs = .ok (.object ms, rest)) :
    ∃ tail fuel' depth', skipSpace cs = '\x7b' :: tail ∧ depth = depth' + 1 ∧
      (skipSpace tail = '\x7d' :: rest ∧ ms = [] ∨
        (∀ after, skipSpace tail ≠ '\x7d' :: after) ∧
          readMembers fuel' depth' [] (skipSpace tail) = .ok (ms, rest)) := by
  cases fuel with
  | zero => cases h
  | succ fuel =>
    unfold readTree at h
    split at h
    · cases h
    · cases eq_of_readLiteral h
    · cases eq_of_readLiteral h
    · cases eq_of_readLiteral h
    · obtain ⟨p, -, hpair⟩ := of_map_eq_ok h
      cases (Prod.mk.inj hpair).1
    · obtain ⟨p, -, hpair⟩ := of_map_eq_ok h
      cases (Prod.mk.inj hpair).1
    · split at h
      · cases h
      · split at h
        · cases h
        · cases (Prod.mk.inj (Except.ok.inj h)).1
        · obtain ⟨p, -, hpair⟩ := of_map_eq_ok h
          cases (Prod.mk.inj hpair).1
    · next tail heq =>
      split at h
      · cases h
      · next depth =>
        refine ⟨tail, fuel, depth, heq, rfl, ?_⟩
        split at h
        · cases h
        · next hclose =>
          obtain ⟨hms, rfl⟩ := Prod.mk.inj (Except.ok.inj h)
          exact .inl ⟨hclose, (Json.object.inj hms).symm⟩
        · next hclose =>
          obtain ⟨p, hmembers, hpair⟩ := of_map_eq_ok h
          obtain ⟨hms, rfl⟩ := Prod.mk.inj hpair
          obtain rfl := Json.object.inj hms
          exact .inr ⟨hclose, hmembers⟩
    · split_ifs at h
      obtain ⟨p, -, hpair⟩ := of_map_eq_ok h
      cases (Prod.mk.inj hpair).1

theorem readTagged_of_readRoot (h : readRoot cs = .ok (.object ms, rest)) :
    readTagged key known (depthLimit - 1) cs = conclude [] rest (tagged? key known none ms) := by
  obtain ⟨tail, fuel, depth, heq, hdepth, ⟨hclose, rfl⟩ | ⟨hclose, hmembers⟩⟩ :=
    members_of_readTree h
  · simp only [readTagged, heq, hclose]
    rfl
  · obtain rfl : depth = depthLimit - 1 := by rw [hdepth]; rfl
    obtain ⟨new, rfl, hnew⟩ := readTaggedMembers_of_readMembers key known hmembers
      (Nat.sub_le _ _)
    unfold readTagged
    simp only [heq]
    split
    · next hnil =>
      have hlt := (steady_readMembers hmembers).shorter
      rw [hnil] at hlt
      exact absurd hlt (Nat.not_lt_zero _)
    · next after hbrace => exact absurd hbrace (hclose after)
    · exact hnew _ none [] (Nat.le_add_left _ _)

end Reading

/-- Decoding the text of an object looks at nothing but its members. -/
theorem decodeTagged_of_holdsObject {decode : String → Record → Option α} {cs : List Char}
    (h : HoldsObject cs ms) :
    decodeTagged key known decode cs =
      match (tagged? key known none ms).bind fun (t, r) => decode t (.members r) with
      | none => .error .shape
      | some a => .ok a := by
  obtain ⟨rest, hroot, hend⟩ := h
  rw [decodeTagged, readTagged_of_readRoot hroot]
  cases tagged? key known none ms with
  | none => rfl
  | some p =>
    obtain ⟨t, r⟩ := p
    change (match decode t (.members r) with
      | none => _
      | some a => _) = _
    simp only [Option.bind_some]
    cases decode t (.members r) with
    | none => rfl
    | some a => 
      simp only [hend]
      rfl

section Keys

theorem tagged?_of_absent (tag : Option String) (h : ∀ m ∈ ms, m.1 ≠ key) :
    tagged? key known tag ms = tag.map (·, ms) := by
  induction ms with
  | nil => rfl
  | cons m ms ih =>
    obtain ⟨hm, hms⟩ := List.forall_mem_cons.mp h
    rw [tagged?, if_neg hm, ih hms]
    cases tag <;> rfl

theorem filter_ne_of_absent (h : ∀ m ∈ ms, m.1 ≠ key) : ms.filter (·.1 ≠ key) = ms :=
  List.filter_eq_self.mpr fun m hm => decide_eq_true (h m hm)

theorem tagged?_of_nodup (h : (ms.map Prod.fst).Nodup) :
    tagged? key known none ms =
      (((lookup? key ms).bind string?).filter known).map (·, ms.filter (·.1 ≠ key)) := by
  induction ms with
  | nil => rfl
  | cons m ms ih =>
    obtain ⟨k, j⟩ := m
    rw [List.map_cons, List.nodup_cons] at h
    rw [tagged?, lookup?, List.filter_cons]
    by_cases hk : k = key
    · subst hk
      have habsent : ∀ m ∈ ms, m.1 ≠ k := fun m hm heq => 
        h.1 (heq ▸ List.mem_map.mpr ⟨m, hm, rfl⟩)
      simp only [if_true, Option.isSome_none, Bool.false_eq_true, if_false, Option.bind_some,
        tagged?_of_absent _ habsent, filter_ne_of_absent habsent, ne_eq, not_true, decide_false]
      cases j.string?.filter known <;> rfl
    · simp only [hk, if_false, ih h.2, ne_eq, not_false_eq_true, decide_true, if_true]
      cases ((lookup? key ms).bind string?).filter known <;> rfl

theorem lookup?_filter {key : String} {p : String → Bool} (hp : p key = true) :
    lookup? key (ms.filter fun m => p m.1) = lookup? key ms := by
  induction ms with
  | nil => rfl
  | cons m ms ih =>
    obtain ⟨k, j⟩ := m
    rw [List.filter_cons, lookup?]
    by_cases hk : k = key
    · subst hk
      simp only [hp, if_true, lookup?]
    · split_ifs with hpk
      · rw [lookup?, if_neg hk, ih]
      · exact ih

theorem lookup?_eq_some (h : (ms.map Prod.fst).Nodup) {j : Json} :
    lookup? key ms = some j ↔ (key, j) ∈ ms := by
  refine ⟨mem_of_lookup?, fun hj => ?_⟩
  have hfilter : (key, j) ∈ ms.filter fun m => m.1 == key :=
    List.mem_filter.mpr ⟨hj, beq_self_eq_true key⟩
  rw [filter_key h] at hfilter
  cases hl : lookup? key ms with
  | none => simp [hl] at hfilter
  | some i =>
    obtain rfl : j = i := by simpa [hl] using hfilter
    rfl

/-- Objects without repeated keys that have the same members with keys of some kind, in whatever
order and whatever else they have, lead those keys to the same values. -/
theorem lookup?_of_perm {ns : List (String × Json)} {p : String → Bool}
    (hms : (ms.map Prod.fst).Nodup) (hns : (ns.map Prod.fst).Nodup)
    (h : (ms.filter fun m => p m.1).Perm (ns.filter fun m => p m.1)) (hp : p key = true) :
    lookup? key ms = lookup? key ns := by
  ext j
  have hmem := h.mem_iff (a := (key, j))
  rw [List.mem_filter, List.mem_filter] at hmem
  rw [lookup?_eq_some hms, lookup?_eq_some hns]
  simpa [hp] using hmem

theorem memberField?_required (h : (ms.map Prod.fst).Nodup) (k : String) :
    memberField? ⟨k, true⟩ ms = (lookup? k ms).map some := by
  rw [memberField?, filter_key h]
  cases lookup? k ms <;> rfl

theorem memberField?_optional (h : (ms.map Prod.fst).Nodup) (k : String) :
    memberField? (.optional k) ms = some (lookup? k ms) := by
  rw [Field.optional, memberField?, filter_key h]
  cases lookup? k ms <;> rfl

theorem values?_congr {ns : List (String × Json)} (hms : (ms.map Prod.fst).Nodup)
    (hns : (ns.map Prod.fst).Nodup) {fields : List Field}
    (h : ∀ f ∈ fields, lookup? f.name ms = lookup? f.name ns) :
    (Record.members ms).values? fields = (Record.members ns).values? fields := by
  have hfield : ∀ f ∈ fields, memberField? f ms = memberField? f ns := fun f hf => by
    rw [memberField?, memberField?, filter_key hms, filter_key hns, h f hf]
  rw [Record.values?, Record.values?]
  induction fields with
  | nil => rfl
  | cons f fields ih =>
    obtain ⟨hf, hfs⟩ := List.forall_mem_cons.mp hfield
    rw [List.mapM_cons, List.mapM_cons, hf, ih (fun g hg => h g (List.mem_cons_of_mem f hg)) hfs]

theorem decodeTagged_of_nodup {decode : String → Record → Option α} {cs : List Char}
    (hcs : HoldsObject cs ms) (hms : (ms.map Prod.fst).Nodup) :
    decodeTagged key known decode cs =
      match (((lookup? key ms).bind string?).filter known).bind fun t =>
        decode t (.members (ms.filter (·.1 ≠ key))) with
      | none => .error .shape
      | some a => .ok a := by
  rw [decodeTagged_of_holdsObject hcs, tagged?_of_nodup hms]
  cases ((lookup? key ms).bind string?).filter known <;> rfl

theorem nodup_filter_ne (key : String) (h : (ms.map Prod.fst).Nodup) :
    ((ms.filter (·.1 ≠ key)).map Prod.fst).Nodup :=
  h.sublist (List.filter_sublist.map Prod.fst)

theorem lookup?_filter_ne {k : String} (h : k ≠ key) :
    lookup? k (ms.filter (·.1 ≠ key)) = lookup? k ms :=
  lookup?_filter (p := fun k => decide (k ≠ key)) (decide_eq_true h)

/-- The keys that a tagged object is asked for: that of its tag, and the names `keys` of the fields
that the tag stands for. -/
def asked (key : String) (keys : String → List String) (ms : List (String × Json)) (k : String) :
    Bool :=
  k == key || match lookup? key ms with
    | some (.string t) => (keys t).contains k
    | _ => false

theorem asked_tag (key : String) (keys : String → List String) (ms : List (String × Json)) :
    asked key keys ms key = true := by simp [asked]

theorem asked_field {keys : String → List String} {t k : String}
    (ht : lookup? key ms = some (.string t)) (hk : k ∈ keys t) : asked key keys ms k = true := by
  simp [asked, ht, hk]

/-- What an object decodes to depends only on the members with keys that it is asked for. -/
theorem decodeTagged_congr {decode : String → Record → Option α} {keys : String → List String}
    (hdecode : ∀ {t r s}, (r.map Prod.fst).Nodup → (s.map Prod.fst).Nodup →
      (∀ k ∈ keys t, lookup? k r = lookup? k s) → decode t (.members r) = decode t (.members s))
    (hkeys : ∀ t, key ∉ keys t) {cs ds : List Char} {ns : List (String × Json)}
    (hcs : HoldsObject cs ms) (hds : HoldsObject ds ns) (hms : (ms.map Prod.fst).Nodup)
    (hns : (ns.map Prod.fst).Nodup)
    (h : (ms.filter fun m => asked key keys ms m.1).Perm
      (ns.filter fun m => asked key keys ms m.1)) :
    decodeTagged key known decode cs = decodeTagged key known decode ds := by
  have htag := lookup?_of_perm hms hns h (asked_tag key keys ms)
  rw [decodeTagged_of_nodup hcs hms, decodeTagged_of_nodup hds hns, ← htag]
  cases hfound : ((lookup? key ms).bind string?).filter known with
  | none => rfl
  | some t =>
    obtain ⟨j, hj, hjt⟩ := Option.bind_eq_some_iff.mp (Option.filter_eq_some_iff.mp hfound).1
    rw [string?_eq_some.mp hjt] at hj
    have hsame : decode t (.members (ms.filter (·.1 ≠ key))) =
        decode t (.members (ns.filter (·.1 ≠ key))) := by
      refine hdecode (nodup_filter_ne _ hms) (nodup_filter_ne _ hns) fun k hk => ?_
      have hne : k ≠ key := fun heq => hkeys t (heq ▸ hk)
      rw [lookup?_filter_ne hne, lookup?_filter_ne hne]
      exact lookup?_of_perm hms hns h (asked_field hj hk)
    simp only [Option.bind_some, hsame]

end Keys

end ShipBridge.Json
