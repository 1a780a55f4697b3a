import ShipBridge.Editor.Dialogue
import ShipBridge.Proofs.Json.Record
import ShipBridge.Proofs.Text.Utf8

/-!
# Which message a text is, and what it is rewritten as

A record is the message of the first shape that it fits. A shape asks for certain members and knows
nothing of others, so a record may fall through to a later shape because a member that an earlier
one asks for is missing, is there twice or has the wrong type.

What is written of a message has just the members of its own shape. Of those that an earlier shape
asks for one is always missing, so it does not matter how the message was first read: read back,
it is the same message.

Where no key is repeated, a message has the kind that its keys call for unless there is an id and a
method that is no string. Such a call fits neither of the shapes that ask for a method, and the last
shape, which knows no method, takes it for a response.
-/

namespace ShipBridge.Editor

open Json

/-! ## Values of members -/

section Values

variable {j : Json} {p : Option Json} {d : Nat}

theorem part?_eq_some : part? p = some j ↔ ∃ i ≠ .null, p = some i ∧ i.normalize = j := by
  unfold part?
  split <;> simp_all

theorem part?_part? (p : Option Json) : part? (part? p) = part? p := by
  cases hp : part? p with
  | none => rfl
  | some j =>
    obtain ⟨i, hne, -, rfl⟩ := part?_eq_some.mp hp
    exact part?_eq_some.mpr ⟨_, mt normalize_eq_null.mp hne, rfl, normalize_normalize i⟩

theorem forall_optionalMember {key : String} {P : Json → Prop} :
    (∀ m ∈ optionalMember key p, P m.2) ↔ ∀ j, p = some j → P j := by
  cases p <;> simp [optionalMember]

/-- An optional part is nested no deeper than what it is a form of, and has no doubles if that has
none. -/
theorem fits_optionalMember {key : String} {q : Option Json} (hq : part? p = q)
    (hp : ∀ i, p = some i → i.Fits d) : ∀ m ∈ optionalMember key q, m.2.Fits d := by
  refine forall_optionalMember.mpr fun j hj => ?_
  obtain ⟨i, -, hi, rfl⟩ := part?_eq_some.mp (hq.trans hj)
  exact (hp i hi).normalize

end Values

/-! ## Shapes -/

section Shapes

variable {rec : Record} {ms : List (String × Json)} {d : Nat}

/-- The fields of a request, in the order in which an array lists them; so for the other shapes. -/
def Request.fields : List Field :=
  [⟨"jsonrpc", true⟩, ⟨"id", true⟩, ⟨"method", true⟩, .optional "params"]

def Notification.fields : List Field :=
  [⟨"jsonrpc", true⟩, ⟨"method", true⟩, .optional "params"]

def ResponseError.fields : List Field :=
  [⟨"code", true⟩, ⟨"message", true⟩, .optional "data"]

def Response.fields : List Field :=
  [⟨"jsonrpc", true⟩, ⟨"id", true⟩, .optional "result", .optional "error"]

theorem Request.ofRecord?_eq_some {r : Request} : ofRecord? rec = some r ↔ ∃ id params,
    rec.values? fields
      = some [some (.string r.jsonrpc), some id, some (.string r.method), params] ∧
    id.normalize = r.id ∧ part? params = r.params := by
  simp only [ofRecord?, Option.bind_eq_bind, Option.bind_eq_some_iff]
  constructor
  · rintro ⟨vs, hvs, h⟩
    split at h
    · next jsonrpc id method params =>
      simp only [Option.bind_eq_some_iff, string?_eq_some] at h
      obtain ⟨_, rfl, _, rfl, h⟩ := h
      obtain rfl := Option.some.inj h
      exact ⟨id, params, hvs, rfl, rfl⟩
    · cases h
  · obtain ⟨jsonrpc, _, method, _⟩ := r
    rintro ⟨id, params, hvs, rfl, rfl⟩
    exact ⟨_, hvs, rfl⟩

theorem Notification.ofRecord?_eq_some {n : Notification} : ofRecord? rec = some n ↔ ∃ params,
    rec.values? fields = some [some (.string n.jsonrpc), some (.string n.method), params] ∧
    part? params = n.params := by
  simp only [ofRecord?, Option.bind_eq_bind, Option.bind_eq_some_iff]
  constructor
  · rintro ⟨vs, hvs, h⟩
    split at h
    · next jsonrpc method params =>
      simp only [Option.bind_eq_some_iff, string?_eq_some] at h
      obtain ⟨_, rfl, _, rfl, h⟩ := h
      obtain rfl := Option.some.inj h
      exact ⟨params, hvs, rfl⟩
    · cases h
  · obtain ⟨jsonrpc, method, _⟩ := n
    rintro ⟨params, hvs, rfl⟩
    exact ⟨_, hvs, rfl⟩

theorem ResponseError.ofRecord?_eq_some {e : ResponseError} : ofRecord? rec = some e ↔ ∃ data,
    rec.values? fields = some [some (.ofInt e.code), some (.string e.message), data] ∧
    e.code < 0x8000000000000000 ∧ part? data = e.data := by
  simp only [ofRecord?, Option.bind_eq_bind, Option.bind_eq_some_iff]
  constructor
  · rintro ⟨vs, hvs, h⟩
    split at h
    · next code message data =>
      simp only [Option.bind_eq_some_iff, string?_eq_some, int64?_eq_some] at h
      obtain ⟨_, ⟨rfl, hcode⟩, _, rfl, h⟩ := h
      obtain rfl := Option.some.inj h
      exact ⟨data, hvs, hcode, rfl⟩
    · cases h
  · obtain ⟨code, message, _⟩ := e
    rintro ⟨data, hvs, hcode, rfl⟩
    have hint : (Json.ofInt code).int64? = some code := int64?_eq_some.mpr ⟨rfl, hcode⟩
    refine ⟨_, hvs, ?_⟩
    simp only [hint]
    rfl

theorem errorPart?_eq_some {p : Option Json} {error : Option ResponseError} :
    errorPart? p = some error ↔ ((p = none ∨ p = some .null) ∧ error = none) ∨
      ∃ j r e, p = some j ∧ j.record? = some r ∧ ResponseError.ofRecord? r = some e ∧
        error = some e := by
  unfold errorPart?
  split
  · simp [eq_comm]
  · simp [eq_comm, record?]
  · next j hnull =>
    have hne : j ≠ .null := hnull
    simp only [Option.bind_eq_bind, Option.bind_eq_some_iff, Option.pure_def, Option.some.injEq,
      reduceCtorEq, hne,
      or_self, false_and, false_or]
    constructor
    · rintro ⟨r, hr, e, he, rfl⟩
      exact ⟨j, r, e, rfl, hr, he, rfl⟩
    · rintro ⟨_, r, e, rfl, hr, he, rfl⟩
      exact ⟨r, hr, e, he, rfl⟩

theorem Response.ofRecord?_eq_some {r : Response} : ofRecord? rec = some r ↔ ∃ id result error,
    rec.values? fields = some [some (.string r.jsonrpc), some id, result, error] ∧
    id.normalize = r.id ∧ part? result = r.result ∧ errorPart? error = some r.error := by
  simp only [ofRecord?, Option.bind_eq_bind, Option.bind_eq_some_iff]
  constructor
  · rintro ⟨vs, hvs, h⟩
    split at h
    · next jsonrpc id result error =>
      simp only [Option.bind_eq_some_iff, string?_eq_some] at h
      obtain ⟨_, rfl, _, herror, h⟩ := h
      obtain rfl := Option.some.inj h
      exact ⟨id, result, error, hvs, rfl, rfl, herror⟩
    · cases h
  · obtain ⟨jsonrpc, _, _, e⟩ := r
    rintro ⟨id, result, error, hvs, rfl, rfl, herror⟩
    refine ⟨_, hvs, ?_⟩
    simp only [herror]
    rfl

/-! ## Fields by their keys -/

theorem Request.ofRecord?_of_nodup (h : (ms.map Prod.fst).Nodup) {r : Request} :
    ofRecord? (.members ms) = some r ↔ ∃ id, lookup? "jsonrpc" ms = some (.string r.jsonrpc) ∧
      lookup? "id" ms = some id ∧ lookup? "method" ms = some (.string r.method) ∧
      id.normalize = r.id ∧ part? (lookup? "params" ms) = r.params := by
  simp [ofRecord?_eq_some, values?_of_nodup h, fields, Field.optional, and_assoc]

theorem Notification.ofRecord?_of_nodup (h : (ms.map Prod.fst).Nodup) {n : Notification} :
    ofRecord? (.members ms) = some n ↔ lookup? "jsonrpc" ms = some (.string n.jsonrpc) ∧
      lookup? "method" ms = some (.string n.method) ∧
      part? (lookup? "params" ms) = n.params := by
  simp [ofRecord?_eq_some, values?_of_nodup h, fields, Field.optional, and_assoc]

theorem ResponseError.ofRecord?_of_nodup (h : (ms.map Prod.fst).Nodup) {e : ResponseError} :
    ofRecord? (.members ms) = some e ↔ lookup? "code" ms = some (.ofInt e.code) ∧
      lookup? "message" ms = some (.string e.message) ∧ e.code < 0x8000000000000000 ∧
      part? (lookup? "data" ms) = e.data := by
  simp [ofRecord?_eq_some, values?_of_nodup h, fields, Field.optional, and_assoc]

theorem Response.ofRecord?_of_nodup (h : (ms.map Prod.fst).Nodup) {r : Response} :
    ofRecord? (.members ms) = some r ↔ ∃ id, lookup? "jsonrpc" ms = some (.string r.jsonrpc) ∧
      lookup? "id" ms = some id ∧ id.normalize = r.id ∧
      part? (lookup? "result" ms) = r.result ∧ errorPart? (lookup? "error" ms) = some r.error := by
  simp [ofRecord?_eq_some, values?_of_nodup h, fields, Field.optional, and_assoc]

/-! ## What is written of a record -/

theorem Request.nodup_members (r : Request) : (r.members.map Prod.fst).Nodup := by
  cases hp : r.params <;> simp [members, optionalMember, hp]

theorem Notification.nodup_members (n : Notification) : (n.members.map Prod.fst).Nodup := by
  cases hp : n.params <;> simp [members, optionalMember, hp]

theorem ResponseError.nodup_members (e : ResponseError) : (e.members.map Prod.fst).Nodup := by
  cases hd : e.data <;> simp [members, optionalMember, hd]

theorem Response.nodup_members (r : Response) : (r.members.map Prod.fst).Nodup := by
  cases hr : r.result <;> cases he : r.error <;> simp [members, optionalMember, hr, he]

theorem lookup?_optionalMember {key other : String} {p : Option Json} :
    lookup? key (optionalMember other p) = if other = key then p else none := by
  cases p with
  | none => exact (ite_self none).symm
  | some j => rfl

theorem Request.ofRecord?_members {r : Request} (h : ofRecord? rec = some r) :
    ofRecord? (.members r.members) = some r := by
  obtain ⟨id, params, -, hid, hparams⟩ := ofRecord?_eq_some.mp h
  refine (ofRecord?_of_nodup r.nodup_members).mpr ⟨r.id, rfl, rfl, rfl, ?_, ?_⟩
  · rw [← hid, normalize_normalize]
  · simp [members, lookup?, lookup?_optionalMember, ← hparams, part?_part?]

theorem Notification.ofRecord?_members {n : Notification} (h : ofRecord? rec = some n) :
    ofRecord? (.members n.members) = some n := by
  obtain ⟨params, -, hparams⟩ := ofRecord?_eq_some.mp h
  refine (ofRecord?_of_nodup n.nodup_members).mpr ⟨rfl, rfl, ?_⟩
  simp [members, lookup?, lookup?_optionalMember, ← hparams, part?_part?]

theorem ResponseError.ofRecord?_members {e : ResponseError} (h : ofRecord? rec = some e) :
    ofRecord? (.members e.members) = some e := by
  obtain ⟨data, -, hcode, hdata⟩ := ofRecord?_eq_some.mp h
  refine (ofRecord?_of_nodup e.nodup_members).mpr ⟨rfl, rfl, hcode, ?_⟩
  simp [members, lookup?, lookup?_optionalMember, ← hdata, part?_part?]

theorem Response.ofRecord?_members {r : Response} (h : ofRecord? rec = some r) :
    ofRecord? (.members r.members) = some r := by
  obtain ⟨id, result, error, -, hid, hresult, herror⟩ := ofRecord?_eq_some.mp h
  refine (ofRecord?_of_nodup r.nodup_members).mpr ⟨r.id, rfl, rfl, ?_, ?_, ?_⟩
  · rw [← hid, normalize_normalize]
  · simp [members, lookup?, lookup?_append, lookup?_optionalMember, ← hresult, part?_part?]
  · have hwritten : lookup? "error" r.members = r.error.map fun e => .object e.members := by
      simp [members, lookup?, lookup?_append, lookup?_optionalMember]
    rw [hwritten]
    rcases errorPart?_eq_some.mp herror with ⟨-, hnone⟩ | ⟨j, er, e, -, -, he, hsome⟩
    · rw [hnone]
      rfl
    · rw [hsome]
      exact errorPart?_eq_some.mpr
        (.inr ⟨_, _, e, rfl, rfl, ResponseError.ofRecord?_members he, rfl⟩)

/-! ## What is written can be read

The parts of what is written are parts of what was read, in the form in which values are kept. So
they have no doubles if those have none, and they are nested no deeper. -/

theorem Request.fits_members {r : Request} (h : ofRecord? rec = some r)
    (hp : ∀ j ∈ rec.parts, j.Fits d) : ∀ m ∈ r.members, m.2.Fits d := by
  obtain ⟨id, params, hvalues, hid, hparams⟩ := ofRecord?_eq_some.mp h
  have hpart := fun j hj => hp j (rec.mem_parts hvalues hj)
  have hidFits : r.id.Fits d := hid ▸ (hpart id (by simp)).normalize
  rw [members, List.forall_mem_append]
  exact ⟨by simp [hidFits, fits_string],
    fits_optionalMember hparams fun i hi => hpart i (by simp [hi])⟩

theorem Notification.fits_members {n : Notification} (h : ofRecord? rec = some n)
    (hp : ∀ j ∈ rec.parts, j.Fits d) : ∀ m ∈ n.members, m.2.Fits d := by
  obtain ⟨params, hvalues, hparams⟩ := ofRecord?_eq_some.mp h
  have hpart := fun j hj => hp j (rec.mem_parts hvalues hj)
  rw [members, List.forall_mem_append]
  exact ⟨by simp [fits_string], fits_optionalMember hparams fun i hi => hpart i (by simp [hi])⟩

theorem ResponseError.fits_members {e : ResponseError} (h : ofRecord? rec = some e)
    (hp : ∀ j ∈ rec.parts, j.Fits d) : ∀ m ∈ e.members, m.2.Fits d := by
  obtain ⟨data, hvalues, -, hdata⟩ := ofRecord?_eq_some.mp h
  have hpart := fun j hj => hp j (rec.mem_parts hvalues hj)
  rw [members, List.forall_mem_append]
  exact ⟨by simp [hpart], fits_optionalMember hdata fun i hi => hpart i (by simp [hi])⟩

theorem fits_errorPart? {p : Option Json} {e : ResponseError} (h : errorPart? p = some (some e))
    (hp : ∀ j, p = some j → j.Fits d) : (Json.object e.members).Fits d := by
  rcases errorPart?_eq_some.mp h with ⟨-, hnone⟩ | ⟨j, r, e', hj, hr, he, heq⟩
  · cases hnone
  · obtain rfl := Option.some.inj heq
    obtain ⟨d, rfl, hparts⟩ := (hp j hj).parts hr
    exact fits_object (ResponseError.fits_members he hparts)

theorem Response.fits_members {r : Response} (h : ofRecord? rec = some r)
    (hp : ∀ j ∈ rec.parts, j.Fits d) : ∀ m ∈ r.members, m.2.Fits d := by
  obtain ⟨id, result, error, hvalues, hid, hresult, herror⟩ := ofRecord?_eq_some.mp h
  have hpart := fun j hj => hp j (rec.mem_parts hvalues hj)
  have hidFits : r.id.Fits d := hid ▸ (hpart id (by simp)).normalize
  have herrorFits : ∀ j, (r.error.map fun e => Json.object e.members) = some j → j.Fits d := by
    intro j hj
    obtain ⟨e, he, rfl⟩ := Option.map_eq_some_iff.mp hj
    exact fits_errorPart? (he ▸ herror) fun i hi => hpart i (by simp [hi])
  rw [members, List.forall_mem_append, List.forall_mem_append]
  exact ⟨⟨by simp [hidFits, fits_string],
    fits_optionalMember hresult fun i hi => hpart i (by simp [hi])⟩,
    forall_optionalMember.mpr herrorFits⟩

end Shapes

/-! ## The first shape that fits -/

namespace Message

variable {tree : Json} {rec : Record} {m : Message} {cs : List Char}

/-- A message is that of the first shape that a record fits. -/
def FirstFit (rec : Record) : Message → Prop
  | .request r => Request.ofRecord? rec = some r
  | .notification n => Request.ofRecord? rec = none ∧ Notification.ofRecord? rec = some n
  | .response r => Request.ofRecord? rec = none ∧ Notification.ofRecord? rec = none ∧
    Response.ofRecord? rec = some r

theorem ofTree?_eq_some :
    ofTree? tree = some m ↔ ∃ rec, tree.record? = some rec ∧ m.FirstFit rec := by
  simp only [ofTree?, Option.bind_eq_bind, Option.bind_eq_some_iff]
  refine exists_congr fun rec => and_congr_right fun _ => ?_
  cases hrequest : Request.ofRecord? rec <;> cases hnotification : Notification.ofRecord? rec <;>
    cases m <;> simp [FirstFit, hrequest, hnotification]

/-- What is written of a message lacks something that each earlier shape asks for. -/
theorem FirstFit.members (h : m.FirstFit rec) : m.FirstFit (.members m.members) := by
  cases m with
  | request r => exact Request.ofRecord?_members h
  | notification n =>
    refine ⟨Option.eq_none_iff_forall_ne_some.mpr fun r hr => ?_,
      Notification.ofRecord?_members h.2⟩
    obtain ⟨id, -, hid, -⟩ := (Request.ofRecord?_of_nodup n.nodup_members).mp hr
    simp [Notification.members, lookup?, lookup?_optionalMember] at hid
  | response r =>
    have hmethod : lookup? "method" r.members = none := by
      simp [Response.members, lookup?, lookup?_append, lookup?_optionalMember]
    refine ⟨Option.eq_none_iff_forall_ne_some.mpr fun q hq => ?_,
      Option.eq_none_iff_forall_ne_some.mpr fun n hn => ?_, Response.ofRecord?_members h.2.2⟩
    · obtain ⟨id, -, -, hq, -⟩ := (Request.ofRecord?_of_nodup r.nodup_members).mp hq
      cases hmethod.symm.trans hq
    · obtain ⟨-, hn, -⟩ := (Notification.ofRecord?_of_nodup r.nodup_members).mp hn
      cases hmethod.symm.trans hn

theorem FirstFit.fits {d : Nat} (h : m.FirstFit rec) (hp : ∀ j ∈ rec.parts, j.Fits d) :
    (Json.object m.members).Fits (d + 1) := by
  cases m with
  | request r => exact fits_object (Request.fits_members h hp)
  | notification n => exact fits_object (Notification.fits_members h.2 hp)
  | response r => exact fits_object (Response.fits_members h.2.2 hp)

theorem decode_eq_ok : decode cs = .ok m ↔ ∃ tree rest, readRoot cs = .ok (tree, rest) ∧
    ofTree? tree = some m ∧ expectEnd rest = .ok () := by
  unfold decode
  cases readRoot cs with
  | error f => simp [bind, Except.bind]
  | ok p =>
    obtain ⟨tree, rest⟩ := p
    cases htree : ofTree? tree with
    | none => simp [bind, Except.bind, htree]
    | some n =>
      cases hend : expectEnd rest <;> simp [bind, Except.bind, pure, Except.pure, htree, hend]

theorem ofBytes_encode (cs : List Char) : ofBytes (Utf8.encode cs) = decode cs := by
  rw [ofBytes, Utf8.split_eq_iff.mpr rfl]

/-- The text that a text is rewritten as: what is written of the message that it decodes as. -/
def rewrite (cs : List Char) : Except Json.Fault (List Char) :=
  (decode cs).map fun m => m.text.toList

/-- What is written of a message that has been read is read back as the same message, if the numbers
in the text it was read from are integers that are kept exact. So rewriting a text twice is the same
as rewriting it once. -/
theorem decode_rewritten (hm : decode cs = .ok m)
    (hi : ∀ tree rest, readRoot cs = .ok (tree, rest) → tree.Integral) :
    decode m.text.toList = .ok m ∧ ofBytes (Utf8.encode m.text.toList) = .ok m ∧
      rewrite cs = .ok m.text.toList ∧ rewrite m.text.toList = rewrite cs := by
  obtain ⟨tree, rest, hread, htree, -⟩ := decode_eq_ok.mp hm
  obtain ⟨rec, hrec, hfirst⟩ := ofTree?_eq_some.mp htree
  -- The parts of the record stand one level below the root, where those of the new object will.
  have hfits : tree.Fits depthLimit := ⟨hi tree rest hread, depth_le_of_readRoot hread⟩
  obtain ⟨d, hd, hparts⟩ := hfits.parts hrec
  obtain ⟨hintegral, hdepth⟩ := hfirst.fits hparts
  have hwritten : readRoot m.text.toList = .ok (.object m.members, []) := by
    rw [text, recordText, String.toList_ofList]
    exact readRoot_chars hintegral (hd ▸ hdepth)
  have hdecode : decode m.text.toList = .ok m := decode_eq_ok.mpr
    ⟨_, _, hwritten, ofTree?_eq_some.mpr ⟨_, rfl, hfirst.members⟩, rfl⟩
  refine ⟨hdecode, (ofBytes_encode _).trans hdecode, ?_, ?_⟩
  · rw [rewrite, hm]
    rfl
  · rw [rewrite, rewrite, hdecode, hm]

/-- A response that names two methods: its error stands as an array, its result is null, and the
keys of its id are out of order and repeated. -/
theorem decode_rewritten_twofold :
    let cs := ("\x7b\"x\":[],\"error\":[-5,\"no\",null],".toList ++
      "\"method\":\"m\",\"method\":\"n\",".toList ++
      "\"id\":\x7b\"b\":1,\"a\":18446744073709551615,\"b\":-9223372036854775808\x7d,".toList ++
      "\"jsonrpc\":\"2.0\",\"result\":null\x7d".toList)
    let m : Message := .response ⟨"2.0", .object [("a", .ofInt maxInt), ("b", .ofInt minInt)],
      none, some ⟨-5, "no", none⟩⟩
    decode cs = .ok m ∧ decode m.text.toList = .ok m ∧ rewrite m.text.toList = rewrite cs := by
  intro cs m
  let tree : Json := .object [("x", .array []),
    ("error", .array [.ofInt (-5), .string "no", .null]),
    ("method", .string "m"), ("method", .string "n"),
    ("id", .object [("b", .ofInt 1), ("a", .ofInt maxInt), ("b", .ofInt minInt)]),
    ("jsonrpc", .string "2.0"), ("result", .null)]
  have hm : decode cs = .ok m := by decide +kernel
  have hread : readRoot cs = .ok (tree, []) := by decide +kernel
  have hintegral : tree.Integral := by
    simp [tree, Integral, IntegralItems, IntegralMembers, ofInt, minInt, maxInt]
  obtain ⟨hdecode, -, -, hsame⟩ := decode_rewritten hm fun tree' rest hread' => by
    obtain ⟨rfl, -⟩ := Prod.mk.inj (Except.ok.inj (hread.symm.trans hread'))
    exact hintegral
  exact ⟨hm, hdecode, hsame⟩

/-! ## Keys and kinds -/

section Keys

variable {ms : List (String × Json)} {rest : List Char}

def HasKey (key : String) (ms : List (String × Json)) : Prop := (lookup? key ms).isSome = true

def HasName (ms : List (String × Json)) : Prop := ∃ s, lookup? "method" ms = some (.string s)

/-- Is a message of the kind that the keys alone call for? -/
@[mk_iff]
structure KeyedBy (ms : List (String × Json)) (m : Message) : Prop where
  request : m.kind = "request" ↔ HasKey "id" ms ∧ HasKey "method" ms
  notification : m.kind = "notification" ↔ HasKey "method" ms ∧ ¬ HasKey "id" ms
  response : m.kind = "response" ↔ HasKey "id" ms ∧ ¬ HasKey "method" ms

theorem HasName.hasKey (h : HasName ms) : HasKey "method" ms := by
  obtain ⟨s, hs⟩ := h
  rw [HasKey, hs]
  rfl

/-- A request is what has an id and the name of a method. -/
theorem fits_request (hkeys : (ms.map Prod.fst).Nodup) (hid : HasKey "id" ms) (hname : HasName ms)
    {s : String} (hs : lookup? "jsonrpc" ms = some (.string s)) :
    Request.ofRecord? (.members ms) ≠ none := by
  obtain ⟨id, hid⟩ := Option.isSome_iff_exists.mp hid
  obtain ⟨method, hmethod⟩ := hname
  have hfits := (Request.ofRecord?_of_nodup hkeys
    (r := ⟨s, id.normalize, method, part? (lookup? "params" ms)⟩)).mpr
    ⟨id, hs, hid, hmethod, rfl, rfl⟩
  exact fun hnone => by cases hnone.symm.trans hfits

theorem FirstFit.keys (hkeys : (ms.map Prod.fst).Nodup) (h : m.FirstFit (.members ms)) :
    (m.kind = "request" ∧ HasKey "id" ms ∧ HasName ms) ∨
    (m.kind = "notification" ∧ ¬ HasKey "id" ms ∧ HasName ms) ∨
    (m.kind = "response" ∧ HasKey "id" ms ∧ ¬ HasName ms) := by
  cases m with
  | request r =>
    obtain ⟨id, -, hid, hmethod, -⟩ := (Request.ofRecord?_of_nodup hkeys).mp h
    exact .inl ⟨rfl, Option.isSome_iff_exists.mpr ⟨id, hid⟩, _, hmethod⟩
  | notification n =>
    obtain ⟨hnone, h⟩ := h
    obtain ⟨hs, hmethod, -⟩ := (Notification.ofRecord?_of_nodup hkeys).mp h
    exact .inr (.inl ⟨rfl, fun hid => fits_request hkeys hid ⟨_, hmethod⟩ hs hnone, _, hmethod⟩)
  | response r =>
    obtain ⟨hnone, -, h⟩ := h
    obtain ⟨id, hs, hid, -⟩ := (Response.ofRecord?_of_nodup hkeys).mp h
    have hid : HasKey "id" ms := Option.isSome_iff_exists.mpr ⟨id, hid⟩
    exact .inr (.inr ⟨rfl, hid, fun hname => fits_request hkeys hid hname hs hnone⟩)

theorem passed_iff (hm : decode cs = .ok m) :
    Turn.ofBody (Utf8.encode cs) = .passed ↔ m.kind = "response" := by
  rw [Turn.ofBody, ofBytes_encode, hm]
  cases m <;> simp [kind]

/-- The kind of a message that names no key twice, and when it is the kind that the keys alone call
for. Listening passes over the message exactly if it has no method that is a string. -/
theorem kind_of_keys (hread : readRoot cs = .ok (.object ms, rest))
    (hkeys : (ms.map Prod.fst).Nodup) (hm : decode cs = .ok m) :
    (m.kind = "request" ↔ HasKey "id" ms ∧ HasName ms) ∧
    (m.kind = "notification" ↔ HasName ms ∧ ¬ HasKey "id" ms) ∧
    (m.kind = "response" ↔ HasKey "id" ms ∧ ¬ HasName ms) ∧
    (m.KeyedBy ms ↔ (HasKey "method" ms → HasName ms)) ∧
    (Turn.ofBody (Utf8.encode cs) = .passed ↔ ¬ HasName ms) := by
  obtain ⟨tree, _, htree, hshape, -⟩ := decode_eq_ok.mp hm
  obtain ⟨rfl, -⟩ := Prod.mk.inj (Except.ok.inj (htree.symm.trans hread))
  obtain ⟨rec, hrec, hfirst⟩ := ofTree?_eq_some.mp hshape
  obtain rfl := Option.some.inj hrec
  rw [passed_iff hm, keyedBy_iff]
  rcases hfirst.keys hkeys with ⟨hkind, hid, hname⟩ | ⟨hkind, hid, hname⟩ | ⟨hkind, hid, hname⟩
  · simp [hkind, hid, hname, hname.hasKey]
  · simp [hkind, hid, hname, hname.hasKey]
  · simp [hkind, hid, hname]

/-- A notification with an error in it. -/
theorem kind_of_keys_notification :
    let cs := ("\x7b\"error\":\x7b\"code\":1,\"message\":\"x\"\x7d,".toList ++
      "\"params\":[],\"method\":\"go\",\"jsonrpc\":\"2.0\"\x7d".toList)
    let m : Message := .notification ⟨"2.0", "go", some (.array [])⟩
    decode cs = .ok m ∧ ∃ ms, readRoot cs = .ok (.object ms, []) ∧ m.KeyedBy ms ∧
      Turn.ofBody (Utf8.encode cs) ≠ .passed := by
  intro cs m
  let ms : List (String × Json) :=
    [("error", .object [("code", .ofInt 1), ("message", .string "x")]),
      ("params", .array []), ("method", .string "go"), ("jsonrpc", .string "2.0")]
  have hm : decode cs = .ok m := by decide +kernel
  have hread : readRoot cs = .ok (.object ms, []) := by decide +kernel
  have hname : HasName ms := ⟨"go", rfl⟩
  obtain ⟨-, -, -, hkeyed, hpassed⟩ := kind_of_keys hread (by decide) hm
  exact ⟨hm, ms, hread, hkeyed.mpr fun _ => hname, fun h => hpassed.mp h hname⟩

/-- A call whose method is a number has an id and a method, and it is passed over as a response. -/
theorem call_passed_over :
    let cs := "\x7b\"jsonrpc\":\"2.0\",\"id\":1,\"method\":5\x7d".toList
    let m : Message := .response ⟨"2.0", .ofInt 1, none, none⟩
    ∃ ms, readRoot cs = .ok (.object ms, []) ∧ (ms.map Prod.fst).Nodup ∧
      HasKey "id" ms ∧ HasKey "method" ms ∧ decode cs = .ok m ∧ ¬ m.KeyedBy ms ∧
      conversation 1024 (Framing.write (Utf8.encode cs)) = ([.passed], none) := by
  intro cs m
  let ms : List (String × Json) :=
    [("jsonrpc", .string "2.0"), ("id", .ofInt 1), ("method", .ofInt 5)]
  have hread : readRoot cs = .ok (.object ms, []) := by decide +kernel
  have hm : decode cs = .ok m := by decide +kernel
  refine ⟨ms, hread, by decide, rfl, rfl, hm, fun h => ?_, by decide +kernel⟩
  exact absurd (h.request.mpr ⟨rfl, rfl⟩) (by decide)

end Keys

end Message

end ShipBridge.Editor
