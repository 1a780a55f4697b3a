import ShipBridge.Proofs.Editor.Message
import ShipBridge.Proofs.Relay.Updates

/-!
# Two readings of an answer

An update that answers a request has the shape of a response, and there are two ways to read it. As
a message it is decoded field by field, and an error that is null counts as none. The bridge asks
whether the key is there at all, and takes from the error what it can find by its keys. The two
agree unless the error is null or written as an array.
-/

namespace ShipBridge.Json

/-! ## Strings in arrays -/

theorem length_le_flatMap_escape (cs : List Char) : cs.length ≤ (cs.flatMap escape).length := by
  induction cs with
  | nil => exact Nat.le_refl 0
  | cons c cs ih =>
    have hpos : 0 < (escape c).length := by
      unfold escape
      split_ifs <;> exact Nat.succ_pos _
    rw [List.flatMap_cons, List.length_append, List.length_cons]
    omega

theorem length_chars_le_itemChars {j : Json} {js : List Json} (h : j ∈ js) :
    j.chars.length ≤ (itemChars js).length := by
  induction js with
  | nil => cases h
  | cons i js ih =>
    cases js with
    | nil =>
      obtain rfl := List.mem_singleton.mp h
      exact Nat.le_refl _
    | cons k js =>
      rw [itemChars_cons_cons, List.length_append, List.length_cons]
      rcases List.mem_cons.mp h with rfl | h
      · omega
      · have := ih h
        omega

theorem text_ne_of_mem {s : String} {js : List Json} (h : .string s ∈ js) :
    s ≠ (Json.array js).text := by
  intro heq
  have hlist : s.toList = (Json.array js).chars := by rw [heq, text, String.toList_ofList]
  have hchars := length_chars_le_itemChars h
  have hescape := length_le_flatMap_escape s.toList
  have hlength := congrArg List.length hlist
  simp only [chars, quote, List.length_append, List.length_cons, List.length_nil] at hchars hlength
  omega

end ShipBridge.Json

namespace ShipBridge.Relay

open Json Editor

/-- Does an outcome say what a response says? -/
def Agrees (r : Response) : Outcome → Prop
  | .ok v => r.error = none ∧ v = r.result.getD .null
  | .error f => ∃ e data, r.error = some e ∧ f = .remote e.code e.message data

namespace Machine

section Readings

variable {ms : List (String × Json)} {r : Response}

theorem answer_of_no_error (h : lookup? "error" ms = none) :
    answer (.object ms) = .ok ((lookup? "result" ms).getD .null) := by
  simp only [answer, get?, h]

theorem answer_of_error {error : Json} (h : lookup? "error" ms = some error) :
    answer (.object ms) = .error (remoteFault error) := by
  simp only [answer, get?, h]

theorem getD_part? (ho : (Json.object ms).Ordered) (key : String) :
    (part? (lookup? key ms)).getD .null = (lookup? key ms).getD .null := by
  cases h : lookup? key ms with
  | none => rfl
  | some j =>
    have hj : j.normalize = j := normalize_of_ordered (ho.of_lookup? h)
    cases j <;> simp [part?, hj]

theorem remoteFault_object {es : List (String × Json)} {err : ResponseError}
    (ho : (Json.object es).Ordered) (h : ResponseError.ofRecord? (.members es) = some err) :
    remoteFault (.object es) = .remote err.code err.message (lookup? "data" es) := by
  obtain ⟨hcode, hmessage, hlt, -⟩ := (ResponseError.ofRecord?_of_nodup ho.nodup).mp h
  have hint : (Json.ofInt err.code).int64? = some err.code := int64?_eq_some.mpr ⟨rfl, hlt⟩
  simp only [remoteFault, get?, hcode, hmessage, Option.bind_some, hint, string?, Option.getD_some]

theorem message_ne_text {js : List Json} {err : ResponseError}
    (h : ResponseError.ofRecord? (.items js) = some err) : err.message ≠ (Json.array js).text := by
  obtain ⟨data, hvalues, -⟩ := ResponseError.ofRecord?_eq_some.mp h
  have hmem : .string err.message ∈ js := Record.mem_parts hvalues (by simp)
  exact text_ne_of_mem hmem

theorem agrees_answer_iff (ho : (Json.object ms).Ordered)
    (h : Response.ofRecord? (.members ms) = some r) : Agrees r (answer (.object ms)) ↔
      ∀ error, lookup? "error" ms = some error → ∃ es, error = .object es := by
  obtain ⟨id, -, -, -, hresult, herror⟩ := (Response.ofRecord?_of_nodup ho.nodup).mp h
  -- The error is absent, null, or a record of its own.
  rcases errorPart?_eq_some.mp herror with ⟨hnone | hnull, hr⟩ | ⟨j, rec, err, hj, hrec, herr, hr⟩
  · rw [answer_of_no_error hnone, hnone]
    refine iff_of_true ⟨hr, ?_⟩ nofun
    rw [← hresult, getD_part? ho]
  · rw [answer_of_error hnull, hnull]
    refine iff_of_false ?_ fun hall => ?_
    · rintro ⟨err, data, herr, -⟩
      cases hr.symm.trans herr
    · obtain ⟨es, hes⟩ := hall .null rfl
      cases hes
  · rw [answer_of_error hj, hj]
    cases j with
    | object es =>
      obtain rfl := Option.some.inj hrec
      rw [remoteFault_object (ho.of_lookup? hj) herr]
      exact iff_of_true ⟨err, _, hr, rfl⟩ fun _ heq => ⟨es, (Option.some.inj heq).symm⟩
    | array js =>
      obtain rfl := Option.some.inj hrec
      -- Nothing in an array has a key, so the fault has the text of the array for its message.
      refine iff_of_false ?_ fun hall => ?_
      · rintro ⟨err', data, herr', hfault⟩
        obtain rfl := Option.some.inj (hr.symm.trans herr')
        exact message_ne_text herr (Fault.remote.inj hfault).2.1.symm
      · obtain ⟨es, hes⟩ := hall _ rfl
        cases hes
    | _ => cases hrec

end Readings

/-- In any state of the bridge, a response from the ship that bears the string id of a pending
request takes the entry of the request and fills its slot, which was empty. What the slot is filled
with is what the response says, unless its error is null or an array: null is no error of a
response and yet fails the request, and of an array neither code nor message is taken over. The
update that the response is decoded from is in the form in which values are kept. -/
theorem answers_as_decoded {e : Surroundings} (hs : List Happening) {ms : List (String × Json)}
    {r : Response} {key : String} {k : Nat} (ho : (Json.object ms).Ordered)
    (hr : Response.ofRecord? (.members ms) = some r) (hid : r.id = .string key)
    (hk : (run e {} hs).pending.entries.lookup key = some k) :
    let m := run e {} hs
    let m' := m.route (.object ms)
    m.pending.slot? k = none ∧ m'.pending.entries.lookup key = none ∧
    ∃ o, m'.pending.slot? k = some o ∧
      (Agrees r o ↔ ∀ error, lookup? "error" ms = some error → ∃ es, error = .object es) ∧
      (lookup? "error" ms = some .null →
        r.error = none ∧ o = .error (.remote (-32603) "null" none)) ∧
      ∀ js, lookup? "error" ms = some (.array js) →
        r.error ≠ none ∧ o = .error (.remote (-32603) (Json.array js).text none) := by
  intro m m'
  obtain ⟨id, -, hlookup, hnormal, -, herror⟩ := (Response.ofRecord?_of_nodup ho.nodup).mp hr
  have hstring : id = .string key := by
    rw [← hid, ← hnormal, normalize_of_ordered (ho.of_lookup? hlookup)]
  have hroute : m'.pending = m.pending.resolve key (answer (.object ms)) := by
    rw [show m' = _ from route_of_id (hstring ▸ hlookup)]
    rfl
  have hopen : m.pending.slots[k]? = some none :=
    ((ledger_run (e := e) hs).entry _ k (Pending.mem_of_lookup hk)).2
  have hlt : k < m.pending.slots.length := (List.getElem?_eq_some_iff.mp hopen).1
  rw [hroute, resolve_of_entry hk]
  refine ⟨by rw [Pending.slot?, hopen]; rfl, ?_, answer (.object ms), ?_, agrees_answer_iff ho hr,
    fun hnull => ⟨?_, ?_⟩, fun js harray => ⟨?_, ?_⟩⟩
  · exact (Session.lookup_filter_ne m.pending.entries key key).trans (if_pos rfl)
  · rw [Pending.slot?_eq_some]
    exact List.getElem?_set_self hlt
  · rw [hnull] at herror
    exact (Option.some.inj herror).symm
  · exact answer_of_error hnull
  · rw [harray] at herror
    rcases errorPart?_eq_some.mp herror with ⟨hnone | hnull, -⟩ | ⟨_, _, _, -, -, -, hsome⟩
    · cases hnone
    · cases hnull
    · rw [hsome]
      exact Option.some_ne_none _
  · exact answer_of_error harray

/-- The bridge to the ship `zod` that numbers its requests. -/
def numbering : Surroundings :=
  { settings := { ship := "zod" }, reconnect := {}, limit := 1000, correlate := toString }

/-- The editor asks for one thing, and the request is forwarded to the ship. -/
def oneRequest : List Happening :=
  let body := Utf8.encode "\x7b\"jsonrpc\":\"2.0\",\"id\":7,\"method\":\"hover\"\x7d".toList
  [.call 0 .converse, .step 0, .wrote (Framing.write body), .step 0, .step 0, .delivered (.ok ()),
    .step 0]

/-- A refusal with a result beside it. -/
theorem answers_as_decoded_refusal :
    let ms : List (String × Json) := [
      ("error", .object [("code", .ofInt (-5)), ("data", .null), ("message", .string "no")]),
      ("id", .string "1"), ("jsonrpc", .string "2.0"), ("result", .ofInt 3)]
    let r : Response := ⟨"2.0", .string "1", some (.ofInt 3), some ⟨-5, "no", none⟩⟩
    let m := run numbering {} oneRequest
    Response.ofRecord? (.members ms) = some r ∧ m.pending.entries.lookup "1" = some 0 ∧
      ∃ o, (m.route (.object ms)).pending.slot? 0 = some o ∧ Agrees r o := by
  intro ms r m
  have ho : (Json.object ms).Ordered := ordered_iff.mpr (by decide +kernel)
  have hr : Response.ofRecord? (.members ms) = some r := by decide +kernel
  have hk : m.pending.entries.lookup "1" = some 0 := by decide +kernel
  obtain ⟨-, -, o, hfilled, hagrees, -⟩ := answers_as_decoded oneRequest ho hr rfl hk
  exact ⟨hr, hk, o, hfilled, hagrees.mpr fun _ heq => ⟨_, (Option.some.inj heq).symm⟩⟩

/-- A result beside an error that is null: the response has no error, and the request fails. -/
theorem null_error_fails :
    let ms : List (String × Json) := [("error", .null), ("id", .string "1"),
      ("jsonrpc", .string "2.0"), ("result", .string "found")]
    let r : Response := ⟨"2.0", .string "1", some (.string "found"), none⟩
    let m := run numbering {} oneRequest
    (Json.object ms).Ordered ∧ Response.ofRecord? (.members ms) = some r ∧
      m.pending.entries.lookup "1" = some 0 ∧
      ∃ o, (m.route (.object ms)).pending.slot? 0 = some o ∧ ¬ Agrees r o := by
  intro ms r m
  refine ⟨ordered_iff.mpr (by decide +kernel), by decide +kernel, by decide +kernel,
    .error (.remote (-32603) "null" none), by decide +kernel, ?_⟩
  rintro ⟨err, data, herr, -⟩
  cases herr

end Machine

end ShipBridge.Relay
