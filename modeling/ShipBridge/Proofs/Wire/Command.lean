import ShipBridge.Proofs.Json.RoundTrip
import ShipBridge.Wire.Command

/-!
# Reading commands back

A command is read back from its own text, and a batch from the text of the batch. The payload of a
poke stands inside the command's object, and that object inside the batch's array; each of the two
takes one level from what the reader allows.
-/

namespace ShipBridge.Wire.Command

/-- A command as a client holds it: its numbers fill an unsigned 64-bit word at most, and the
payload of a poke has no doubles and is nested at most `depth` deep. -/
def Fits (depth : Nat) : Command → Prop
  | .poke id _ _ _ json =>
    id ≤ Numeral.maxU64 ∧ json.Integral ∧ json.Ordered ∧ json.depth ≤ depth
  | .subscribe id _ _ _ => id ≤ Numeral.maxU64
  | .unsubscribe id subscription => id ≤ Numeral.maxU64 ∧ subscription ≤ Numeral.maxU64
  | .ack eventId => eventId ≤ Numeral.maxU64

/-- The name of what a command asks for. -/
def action : Command → String
  | .poke .. => "poke"
  | .subscribe .. => "subscribe"
  | .unsubscribe .. => "unsubscribe"
  | .ack _ => "ack"

def fields (c : Command) : List (String × Json) := c.members.tail

theorem members_eq (c : Command) : c.members = ("action", .string c.action) :: c.fields := by
  cases c <;> rfl

theorem known_action (c : Command) : known c.action = true := by
  cases c <;> rfl

theorem fields_key_ne (c : Command) : ∀ m ∈ c.fields, m.1 ≠ "action" := by
  cases c <;> simp [fields, members]

theorem integral_ofNat {n : Nat} (h : n ≤ Numeral.maxU64) : (Json.ofNat n).Integral := by
  simp only [Json.ofNat, Json.Integral, Json.minInt, Json.maxInt, Numeral.maxU64] at h ⊢
  omega

theorem integral_fields {c : Command} {depth : Nat} (h : c.Fits depth) :
    Json.IntegralMembers c.fields := by
  cases c with
  | poke id ship app mark json =>
    exact ⟨integral_ofNat h.1, trivial, trivial, trivial, h.2.1, trivial⟩
  | subscribe id ship app path => exact ⟨integral_ofNat h, trivial, trivial, trivial, trivial⟩
  | unsubscribe id subscription => exact ⟨integral_ofNat h.1, integral_ofNat h.2, trivial⟩
  | ack eventId => exact ⟨integral_ofNat h, trivial⟩

theorem depth_fields {c : Command} {depth : Nat} (h : c.Fits depth) :
    Json.membersDepth c.fields ≤ depth := by
  cases c with
  | poke id ship app mark json =>
    simpa [fields, members, Json.membersDepth, Json.depth, Json.ofNat] using h.2.2.2
  | _ => exact Nat.zero_le _

theorem nat?_ofNat (n : Nat) : (Json.ofNat n).nat? = some n := by
  rw [Json.ofNat, Json.nat?, if_pos (Int.natCast_nonneg n), Int.toNat_natCast]

theorem ofRecord?_fields {c : Command} {depth : Nat} (h : c.Fits depth) :
    ofRecord? c.action (.members c.fields) = some c := by
  cases c with
  | poke id ship app mark json =>
    have hj : json.normalize = json := Json.normalize_of_ordered h.2.2.1
    simp [ofRecord?, action, fields, members, Json.Record.values?, Json.memberField?, Json.string?,
      nat?_ofNat, hj]
  | subscribe id ship app path =>
    simp [ofRecord?, action, fields, members, Json.Record.values?, Json.memberField?, Json.string?,
      nat?_ofNat]
  | unsubscribe id subscription =>
    simp [ofRecord?, action, fields, members, Json.Record.values?, Json.memberField?, nat?_ofNat]
  | ack eventId =>
    simp [ofRecord?, action, fields, members, Json.Record.values?, Json.memberField?, nat?_ofNat]

def chars (c : Command) : List Char := (Json.object c.members).chars

theorem starts_chars (c : Command) (rest : List Char) : Json.Starts (c.chars ++ rest) :=
  (Json.starts_cons rfl (by decide)).append rest

theorem readTagged_chars {c : Command} {depth : Nat} (h : c.Fits depth) (rest : List Char) :
    Json.readTagged "action" known depth (c.chars ++ rest)
      = .ok ((c.action, .members c.fields), rest) := by
  rw [chars, members_eq]
  exact Json.readTagged_object (known_action c) (integral_fields h) (fields_key_ne c)
    (depth_fields h) rest

theorem decode_text {c : Command} (h : c.Fits (Json.depthLimit - 1)) :
    decode c.text.toList = .ok c := by
  have hread := readTagged_chars h []
  rw [List.append_nil] at hread
  have htext : c.text.toList = c.chars := String.toList_ofList
  rw [decode, Json.decodeTagged, htext, hread]
  simp only [bind, Except.bind, ofRecord?_fields h]
  rfl

/-- The commands of a batch as they are written between its brackets. -/
def batchChars (cs : List Command) : List Char :=
  Json.itemChars (cs.map fun c => .object c.members)

theorem batchChars_singleton (c : Command) : batchChars [c] = c.chars := rfl

theorem batchChars_cons_cons (c d : Command) (ds : List Command) :
    batchChars (c :: d :: ds) = c.chars ++ ',' :: batchChars (d :: ds) := rfl

theorem starts_batchChars (c : Command) (cs : List Command) (rest : List Char) :
    Json.Starts (batchChars (c :: cs) ++ rest) := by
  cases cs with
  | nil => exact starts_chars c rest
  | cons d ds =>
    rw [batchChars_cons_cons, List.append_assoc]
    exact starts_chars c _

theorem length_le_batchChars (cs : List Command) : cs.length ≤ (batchChars cs).length := by
  induction cs with
  | nil => exact Nat.zero_le _
  | cons c cs ih =>
    cases cs with
    | nil => exact Nat.succ_le_succ (Nat.zero_le _)
    | cons d ds =>
      simp only [batchChars_cons_cons, List.length_append, List.length_cons] at ih ⊢
      omega

-- The induction is on the commands that follow; the reader's fuel counts commands, not characters.
theorem readCommands_batchChars {c : Command} {cs : List Command}
    (h : ∀ d ∈ c :: cs, d.Fits (Json.depthLimit - 2)) {fuel : Nat} (hf : cs.length < fuel)
    (acc : List Command) (rest : List Char) :
    readCommands fuel acc (batchChars (c :: cs) ++ ']' :: rest)
      = .ok (acc.reverse ++ c :: cs, rest) := by
  induction cs generalizing c acc fuel with
  | nil =>
    obtain ⟨fuel, rfl⟩ := Nat.exists_eq_add_one.mpr (Nat.zero_lt_of_lt hf)
    have hc := h c List.mem_cons_self
    rw [batchChars_singleton, readCommands, readTagged_chars hc]
    simp only [ofRecord?_fields hc, List.reverse_cons,
      Json.readSeparator_close (show Json.isSpace ']' = false from rfl)]
  | cons d ds ih =>
    rw [List.length_cons] at hf
    obtain ⟨fuel, rfl⟩ := Nat.exists_eq_add_one.mpr (Nat.zero_lt_of_lt hf)
    have hc := h c List.mem_cons_self
    have hnext := ih (fun e he => h e (List.mem_cons_of_mem _ he)) (show ds.length < fuel by omega)
      (c :: acc)
    rw [batchChars_cons_cons, List.append_assoc, List.cons_append, readCommands,
      readTagged_chars hc]
    simp only [ofRecord?_fields hc,
      Json.readSeparator_comma (.inl rfl) (starts_batchChars d ds (']' :: rest)), hnext,
      List.reverse_cons, List.append_assoc, List.singleton_append]

theorem decodeBatch_batchText {cs : List Command}
    (h : ∀ c ∈ cs, c.Fits (Json.depthLimit - 2)) : decodeBatch (batchText cs).toList = .ok cs := by
  have htext : (batchText cs).toList = '[' :: (batchChars cs ++ [']']) := String.toList_ofList
  have hread : readBatch (batchText cs).toList = .ok (cs, []) := by
    rw [htext]
    cases cs with
    | nil => rfl
    | cons c cs =>
      have hlength := length_le_batchChars (c :: cs)
      have hfuel : cs.length < (batchChars (c :: cs) ++ [']']).length := by
        rw [List.length_cons] at hlength
        rw [List.length_append]
        omega
      have hcommands := readCommands_batchChars h hfuel [] []
      have hstarts := starts_batchChars c cs [']']
      rw [readBatch, Json.skipSpace_cons rfl]
      simp only [hstarts.skipSpace_eq]
      obtain ⟨a, tail, ha, -, hbracket, -⟩ := hstarts
      rw [ha] at hcommands ⊢
      split
      · contradiction
      · simp_all
      · exact hcommands
  rw [decodeBatch, hread]
  rfl

/-- Commands and batches are read back from their texts: those whose payloads hold no doubles and
are nested at most 126 deep for a command alone, 125 for one in a batch. No two of them are written
alike. -/
theorem commands_round_trip :
    (∀ c : Command, c.Fits 126 → decode c.text.toList = .ok c) ∧
    (∀ cs : List Command, (∀ c ∈ cs, c.Fits 125) → decodeBatch (batchText cs).toList = .ok cs) ∧
    (∀ c d : Command, c.Fits 126 → d.Fits 126 → c.text = d.text → c = d) ∧
    (∀ cs ds : List Command, (∀ c ∈ cs, c.Fits 125) → (∀ d ∈ ds, d.Fits 125) →
      batchText cs = batchText ds → cs = ds) := by
  have hone : ∀ c : Command, c.Fits 126 → decode c.text.toList = .ok c := fun _ => decode_text
  have hmany : ∀ cs : List Command, (∀ c ∈ cs, c.Fits 125) →
      decodeBatch (batchText cs).toList = .ok cs := fun _ => decodeBatch_batchText
  refine ⟨hone, hmany, fun c d hc hd htext => ?_, fun cs ds hcs hds htext => ?_⟩
  · have hdecode := hone c hc
    rw [htext, hone d hd] at hdecode
    exact (Except.ok.inj hdecode).symm
  · have hdecode := hmany cs hcs
    rw [htext, hmany ds hds] at hdecode
    exact (Except.ok.inj hdecode).symm

/-- A payload that looks like a command itself, at the ends of the integers, in a poke with awkward
strings. -/
theorem commands_round_trip_lookalike :
    let payload : Json := .object [("action", .string "ack"), ("id", .ofInt Json.minInt),
      ("json", .array [.ofInt Json.maxInt, .object [], .null])]
    let c : Command := .poke 1 "\x22zod\x22\n" "\\\x01" "é😀" payload
    c.Fits 126 ∧ decode c.text.toList = .ok c ∧
      decodeBatch (batchText [c, .ack 7]).toList = .ok [c, .ack 7] ∧ c.text ≠ (ack 7).text ∧
      batchText [c] ≠ batchText [c, .ack 7] := by
  intro payload c
  have hordered : payload.Ordered := by
    refine ⟨?_, trivial, trivial, ⟨trivial, ⟨.nil, trivial⟩, trivial, trivial⟩, trivial⟩
    decide
  have hintegral : payload.Integral :=
    ⟨trivial, ⟨le_rfl, by decide⟩, ⟨⟨by decide, le_rfl⟩, trivial, trivial, trivial⟩, trivial⟩
  have hdepth : payload.depth = 3 := rfl
  have hone : Fits 126 c := ⟨by decide, hintegral, hordered, by omega⟩
  have hmany : ∀ d ∈ [c, ack 7], d.Fits 125 := by
    intro d hd
    rcases List.mem_pair.mp hd with rfl | rfl
    · exact ⟨by decide, hintegral, hordered, by omega⟩
    · exact show 7 ≤ Numeral.maxU64 by decide
  obtain ⟨hcommand, hbatch, halone, htogether⟩ := commands_round_trip
  refine ⟨hone, hcommand c hone, hbatch _ hmany, fun h => ?_, fun h => ?_⟩
  · have heq := halone c (ack 7) hone (show 7 ≤ Numeral.maxU64 by decide) h
    contradiction
  · have heq := htogether [c] [c, ack 7] (fun d hd => hmany d (by simp_all)) hmany h
    exact List.cons_ne_nil _ _ (List.cons.inj heq).2.symm

end ShipBridge.Wire.Command
