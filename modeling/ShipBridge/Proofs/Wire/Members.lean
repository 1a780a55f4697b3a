import ShipBridge.Proofs.Json.Tagged
import ShipBridge.Wire.Command
import ShipBridge.Wire.Frame

/-!
# Frames and commands by their members

A frame and a command are decoded from an object by what its keys lead to. The order of the members
is of no consequence, the tag may stand anywhere among them, and so may members of other names.
-/

namespace ShipBridge.Wire

open Json

variable {ms ns : List (String × Json)}

/-- The fields that a frame of a kind may have. -/
def Frame.keys (response : String) : List String :=
  if response == "poke" || response == "subscribe" then ["id", "ok", "err"]
  else if response == "diff" then ["id", "json"]
  else if response == "quit" then ["id"]
  else []

def Command.keys (action : String) : List String :=
  if action == "poke" then ["id", "ship", "app", "mark", "json"]
  else if action == "subscribe" then ["id", "ship", "app", "path"]
  else if action == "unsubscribe" then ["id", "subscription"]
  else if action == "ack" then ["event-id"]
  else []

theorem Frame.ofRecord?_poke (h : (ms.map Prod.fst).Nodup) :
    Frame.ofRecord? "poke" (.members ms) = ((lookup? "id" ms).bind nat?).map fun id =>
      .poke id ((lookup? "ok" ms).map normalize) ((lookup? "err" ms).map normalize) := by
  cases hid : lookup? "id" ms with
  | none => simp [Frame.ofRecord?, Record.values?, memberField?_required h, hid]
  | some id =>
    cases hn : id.nat? <;> simp [Frame.ofRecord?, Record.values?, memberField?_required h,
      memberField?_optional h, hid, hn]

theorem Frame.ofRecord?_subscribe (h : (ms.map Prod.fst).Nodup) :
    Frame.ofRecord? "subscribe" (.members ms) = ((lookup? "id" ms).bind nat?).map fun id =>
      .subscribe id ((lookup? "ok" ms).map normalize) ((lookup? "err" ms).map normalize) := by
  cases hid : lookup? "id" ms with
  | none => simp [Frame.ofRecord?, Record.values?, memberField?_required h, hid]
  | some id =>
    cases hn : id.nat? <;> simp [Frame.ofRecord?, Record.values?, memberField?_required h,
      memberField?_optional h, hid, hn]

theorem Frame.ofRecord?_diff (h : (ms.map Prod.fst).Nodup) :
    Frame.ofRecord? "diff" (.members ms) = ((lookup? "id" ms).bind nat?).map fun id =>
      .diff id (((lookup? "json" ms).map normalize).getD .null) := by
  cases hid : lookup? "id" ms with
  | none => simp [Frame.ofRecord?, Record.values?, memberField?_required h, hid]
  | some id =>
    cases hn : id.nat? <;> simp [Frame.ofRecord?, Record.values?, memberField?_required h,
      memberField?_optional h, hid, hn]

theorem Frame.ofRecord?_quit (h : (ms.map Prod.fst).Nodup) :
    Frame.ofRecord? "quit" (.members ms) = ((lookup? "id" ms).bind nat?).map .quit := by
  cases hid : lookup? "id" ms with
  | none => simp [Frame.ofRecord?, Record.values?, memberField?_required h, hid]
  | some id =>
    cases hn : id.nat? <;>
      simp [Frame.ofRecord?, Record.values?, memberField?_required h, hid, hn]

/-- A frame looks up the fields of its kind, and nothing else. -/
theorem Frame.ofRecord?_congr {t : String} (hms : (ms.map Prod.fst).Nodup)
    (hns : (ns.map Prod.fst).Nodup) (h : ∀ k ∈ Frame.keys t, lookup? k ms = lookup? k ns) :
    Frame.ofRecord? t (.members ms) = Frame.ofRecord? t (.members ns) := by
  have hvalues (fields : List Field) (hf : ∀ f ∈ fields, f.name ∈ Frame.keys t) :
      (Record.members ms).values? fields = (Record.members ns).values? fields :=
    values?_congr hms hns fun f hmem => h _ (hf f hmem)
  unfold Frame.ofRecord? Frame.keys at *
  by_cases hanswer : (t == "poke" || t == "subscribe") = true
  · simp only [if_pos hanswer] at hvalues ⊢
    rw [hvalues _ (by simp [Field.optional])]
  · simp only [if_neg hanswer] at hvalues ⊢
    split_ifs at hvalues ⊢
    · rw [hvalues _ (by simp [Field.optional])]
    · rw [hvalues _ (by simp)]
    · rfl

theorem Command.ofRecord?_congr {t : String} (hms : (ms.map Prod.fst).Nodup)
    (hns : (ns.map Prod.fst).Nodup) (h : ∀ k ∈ Command.keys t, lookup? k ms = lookup? k ns) :
    Command.ofRecord? t (.members ms) = Command.ofRecord? t (.members ns) := by
  have hvalues (fields : List Field) (hf : ∀ f ∈ fields, f.name ∈ Command.keys t) :
      (Record.members ms).values? fields = (Record.members ns).values? fields :=
    values?_congr hms hns fun f hmem => h _ (hf f hmem)
  unfold Command.ofRecord? Command.keys at *
  split_ifs at hvalues ⊢
  · rw [hvalues _ (by simp)]
  · rw [hvalues _ (by simp)]
  · rw [hvalues _ (by simp)]
  · rw [hvalues _ (by simp)]
  · rfl

theorem Frame.tag_notMem_keys (t : String) : "response" ∉ Frame.keys t := by
  unfold Frame.keys
  split_ifs <;> decide

theorem Command.tag_notMem_keys (t : String) : "action" ∉ Command.keys t := by
  unfold Command.keys
  split_ifs <;> decide

section Decoding

variable {cs : List Char} (hcs : HoldsObject cs ms) (hms : (ms.map Prod.fst).Nodup)

include hcs hms

/-- The frames that an object can decode to. -/
theorem Frame.decode_cases {a : Frame} (h : Frame.decode cs = .ok a) :
    ∃ id, a = .poke id ((lookup? "ok" ms).map normalize) ((lookup? "err" ms).map normalize) ∨
      a = .subscribe id ((lookup? "ok" ms).map normalize) ((lookup? "err" ms).map normalize) ∨
      a = .diff id (((lookup? "json" ms).map normalize).getD .null) ∨ a = .quit id := by
  rw [Frame.decode, decodeTagged_of_nodup hcs hms] at h
  have hrest := nodup_filter_ne "response" hms
  cases hfound : ((lookup? "response" ms).bind string?).filter Frame.known with
  | none =>
    rw [hfound] at h
    cases h
  | some t =>
    have hknown := (Option.filter_eq_some_iff.mp hfound).2
    simp only [Frame.known, Bool.or_eq_true, beq_iff_eq] at hknown
    rw [hfound, Option.bind_some] at h
    obtain ((rfl | rfl) | rfl) | rfl := hknown
    · rw [Frame.ofRecord?_poke hrest, lookup?_filter_ne (by decide), lookup?_filter_ne (by decide),
        lookup?_filter_ne (by decide)] at h
      cases hid : (lookup? "id" ms).bind nat? with
      | none => simp [hid] at h
      | some id => exact ⟨id, .inl (by simpa [hid] using h.symm)⟩
    · rw [Frame.ofRecord?_subscribe hrest, lookup?_filter_ne (by decide),
        lookup?_filter_ne (by decide), lookup?_filter_ne (by decide)] at h
      cases hid : (lookup? "id" ms).bind nat? with
      | none => simp [hid] at h
      | some id => exact ⟨id, .inr (.inl (by simpa [hid] using h.symm))⟩
    · rw [Frame.ofRecord?_diff hrest, lookup?_filter_ne (by decide),
        lookup?_filter_ne (by decide)] at h
      cases hid : (lookup? "id" ms).bind nat? with
      | none => simp [hid] at h
      | some id => exact ⟨id, .inr (.inr (.inl (by simpa [hid] using h.symm)))⟩
    · rw [Frame.ofRecord?_quit hrest, lookup?_filter_ne (by decide)] at h
      cases hid : (lookup? "id" ms).bind nat? with
      | none => simp [hid] at h
      | some id => exact ⟨id, .inr (.inr (.inr (by simpa [hid] using h.symm)))⟩

theorem Frame.decode_diff (ht : lookup? "response" ms = some (.string "diff")) :
    Frame.decode cs = match (lookup? "id" ms).bind nat? with
      | none => .error .shape
      | some id => .ok (.diff id (((lookup? "json" ms).map normalize).getD .null)) := by
  have hknown : (((lookup? "response" ms).bind string?).filter Frame.known) = some "diff" := by
    rw [ht]
    rfl
  rw [Frame.decode, decodeTagged_of_nodup hcs hms, hknown, Option.bind_some,
    Frame.ofRecord?_diff (nodup_filter_ne _ hms), lookup?_filter_ne (by decide),
    lookup?_filter_ne (by decide)]
  cases (lookup? "id" ms).bind nat? <;> rfl

end Decoding

/-- Decoding depends on the members of an object that its tag asks for, whatever their order and
whatever stands between them. A frame's `ok` and `err` are present when their keys are, and a diff
without a payload is one whose payload is null. -/
theorem decoding_by_members {cs ds : List Char} (hcs : HoldsObject cs ms) (hds : HoldsObject ds ns)
    (hms : (ms.map Prod.fst).Nodup) (hns : (ns.map Prod.fst).Nodup) :
    ((ms.filter fun m => asked "response" Frame.keys ms m.1).Perm
        (ns.filter fun m => asked "response" Frame.keys ms m.1) →
      Frame.decode cs = Frame.decode ds) ∧
    ((ms.filter fun m => asked "action" Command.keys ms m.1).Perm
        (ns.filter fun m => asked "action" Command.keys ms m.1) →
      Command.decode cs = Command.decode ds) ∧
    (∀ id ok err,
      Frame.decode cs = .ok (.poke id ok err) ∨ Frame.decode cs = .ok (.subscribe id ok err) →
      (ok.isSome ↔ "ok" ∈ ms.map Prod.fst) ∧ (err.isSome ↔ "err" ∈ ms.map Prod.fst)) ∧
    (lookup? "response" ms = some (.string "diff") → "json" ∉ ms.map Prod.fst →
      ns.Perm (("json", .null) :: ms) → Frame.decode cs = Frame.decode ds) := by
  have hpresent (k : String) :
      ((lookup? k ms).map normalize).isSome ↔ k ∈ ms.map Prod.fst := by
    rw [Option.isSome_map, Option.isSome_iff_ne_none, ne_eq, lookup?_eq_none]
    simp
  refine ⟨decodeTagged_congr Frame.ofRecord?_congr Frame.tag_notMem_keys hcs hds hms hns,
    decodeTagged_congr Command.ofRecord?_congr Command.tag_notMem_keys hcs hds hms hns,
    fun id ok err h => ?_, fun ht hjson hperm => ?_⟩
  · obtain ⟨rfl, rfl⟩ : ok = (lookup? "ok" ms).map normalize ∧
        err = (lookup? "err" ms).map normalize := by
      rcases h with h | h <;>
      obtain ⟨_, h | h | h | h⟩ := Frame.decode_cases hcs hms h <;> cases h <;> exact ⟨rfl, rfl⟩
    exact ⟨hpresent "ok", hpresent "err"⟩
  · have hlookup {k : String} (hk : k ≠ "json") : lookup? k ns = lookup? k ms := by
      ext j
      rw [lookup?_eq_some hns, lookup?_eq_some hms, hperm.mem_iff]
      simp [hk]
    have hnull : lookup? "json" ns = some .null :=
      (lookup?_eq_some hns).mpr (hperm.mem_iff.mpr List.mem_cons_self)
    have habsent : lookup? "json" ms = none := lookup?_eq_none.mpr fun m hm heq =>
      hjson (heq ▸ List.mem_map_of_mem hm)
    rw [Frame.decode_diff hcs hms ht, Frame.decode_diff hds hns ((hlookup (by decide)).trans ht),
      hlookup (show "id" ≠ "json" by decide), hnull, habsent]
    rfl

/-- An answer with its tag in the middle and a member of another name, and the same answer without. -/
theorem decoding_by_members_answer :
    let cs := "\x7b\"ok\":null,\"x\":[1],\"response\":\"poke\",\"id\":3\x7d".toList
    let ds := "\x7b \"response\" : \"poke\", \"id\" : 3, \"ok\" : null \x7d".toList
    Frame.decode cs = Frame.decode ds ∧ Frame.decode cs = .ok (.poke 3 (some .null) none) := by
  intro cs ds
  have hcs : HoldsObject cs [("ok", .null), ("x", .array [1]), ("response", .string "poke"),
    ("id", 3)] := ⟨[], by decide +kernel, by decide +kernel⟩
  have hds : HoldsObject ds [("response", .string "poke"), ("id", 3), ("ok", .null)] :=
    ⟨[], by decide +kernel, by decide +kernel⟩
  obtain ⟨hframe, -, -, -⟩ := decoding_by_members hcs hds (by decide +kernel) (by decide +kernel)
  exact ⟨hframe (by decide +kernel), by decide +kernel⟩

/-- A number that no double can hold spoils the text of a frame, although it stands in a member that
the frame does not ask for. -/
theorem unreadable_member_refused :
    let cs := "\x7b\"response\":\"quit\",\"id\":1\x7d".toList
    let ds := "\x7b\"response\":\"quit\",\"id\":1,\"x\":1e400\x7d".toList
    Frame.decode cs = .ok (.quit 1) ∧ Frame.decode ds = .error .notJson := by
  decide +kernel

end ShipBridge.Wire
