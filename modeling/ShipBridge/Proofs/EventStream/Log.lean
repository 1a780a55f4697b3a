import ShipBridge.Proofs.EventStream.Decoder
import ShipBridge.Proofs.Text.Numeral

/-!
# The ship's log as a body

The ship numbers its events and writes each as a line with its number, a line with its data and a
blank line. Of whatever has arrived of the body that carries a log, the decoder makes the events
of those entries that have arrived completely, and nothing of an entry whose last byte is missing.
-/

namespace ShipBridge.EventStream

/-- An entry of the ship's log: a number of 64 bits, and data on one line. -/
structure LogEntry where
  number : Nat
  data : String
  bounded : number ≤ Numeral.maxU64
  oneLine : ∀ c ∈ data.toList, c ≠ '\n' ∧ c ≠ '\r'

def LogEntry.digits (e : LogEntry) : List Char := Nat.toDigits 10 e.number

/-- An entry up to the line feed that ends its blank line. -/
def LogEntry.lines (e : LogEntry) : List Char :=
  ("id: ".toList ++ e.digits ++ ['\n']) ++ ("data: ".toList ++ e.data.toList ++ ['\n'])

def LogEntry.text (e : LogEntry) : List Char := e.lines ++ ['\n']

def body (es : List LogEntry) : List UInt8 := Utf8.encode (es.flatMap LogEntry.text)

def LogEntry.event (e : LogEntry) : Event :=
  { id := some (toString e.number), kind := some "message", data := e.data }

theorem LogEntry.number?_event (e : LogEntry) : e.event.number? = some e.number := by
  have hd : (toString e.number).toList = Nat.toDigits 10 e.number := by
    rw [Nat.toString_eq_ofList_toDigits, String.toList_ofList]
  rw [Event.number?, LogEntry.event, Option.bind, hd, Text.trim_toDigits,
    Numeral.read64?_toDigits e.bounded]

/-! ## One entry -/

theorem isDigit_of_mem_digits {e : LogEntry} {c : Char} (h : c ∈ e.digits) : c.isDigit = true :=
  Nat.isDigit_of_mem_toDigits (by omega) (by omega) h

theorem ne_of_mem_digits {e : LogEntry} {c d : Char} (h : c ∈ e.digits) (hd : d.isDigit = false) :
    c ≠ d := by
  rintro rfl
  rw [isDigit_of_mem_digits h] at hd
  cases hd

theorem Draft.line_id (d : Draft) (e : LogEntry) :
    d.line ("id: ".toList ++ e.digits) = ({ d with id := e.digits }, none) := by
  have hnul : '\x00' ∉ e.digits := fun h => ne_of_mem_digits h rfl rfl
  simp [Draft.line, splitField, Draft.field, hnul]

theorem Draft.line_data (d : Draft) (value : List Char) :
    d.line ("data: ".toList ++ value) = ({ d with data := d.data ++ value ++ ['\n'] }, none) := by
  simp [Draft.line, splitField, Draft.field]

/-- Between two entries only the id of the last one is kept. -/
def idle (id : List Char) : Lines := { draft := { id } }

theorem run_lines (e : LogEntry) (id : List Char) : (idle id).run e.lines =
    ({ draft := { id := e.digits, data := e.data.toList ++ ['\n'] } }, []) := by
  have hname : ∀ c ∈ "id: ".toList ++ "data: ".toList, c ≠ '\n' ∧ c ≠ '\r' := by simp
  have hid : ∀ c ∈ "id: ".toList ++ e.digits, c ≠ '\n' ∧ c ≠ '\r' := by
    intro c hc
    rcases List.mem_append.mp hc with hc | hc
    · exact hname c (List.mem_append_left _ hc)
    · exact ⟨ne_of_mem_digits hc rfl, ne_of_mem_digits hc rfl⟩
  have hdata : ∀ c ∈ "data: ".toList ++ e.data.toList, c ≠ '\n' ∧ c ≠ '\r' := by
    intro c hc
    rcases List.mem_append.mp hc with hc | hc
    · exact hname c (List.mem_append_right _ hc)
    · exact e.oneLine c hc
  delta LogEntry.lines
  rw [Lines.run_append, idle, Lines.run_line _ hid, Draft.line_id, Lines.run_line _ hdata,
    Draft.line_data]
  rfl

theorem run_text (e : LogEntry) (id : List Char) :
    (idle id).run e.text = (idle e.digits, [e.event]) := by
  have hne : e.digits.isEmpty = false := List.isEmpty_eq_false_iff.mpr Nat.toDigits_ne_nil
  have hid : nonempty? e.digits = some (toString e.number) := by
    rw [nonempty?, hne, Nat.toString_eq_ofList_toDigits]
    rfl
  rw [LogEntry.text, Lines.run_append, run_lines]
  simp [Lines.run, Lines.feed, Lines.character, Lines.endLine, Draft.line, Draft.event, hid, idle,
    LogEntry.event, String.ofList_toList]

/-! ## Many entries -/

theorem run_flatMap_text (es : List LogEntry) (id : List Char) :
    ∃ id', (idle id).run (es.flatMap LogEntry.text) = (idle id', es.map LogEntry.event) := by
  induction es generalizing id with
  | nil => exact ⟨id, rfl⟩
  | cons e es ih =>
    obtain ⟨id', h⟩ := ih e.digits
    refine ⟨id', ?_⟩
    rw [List.flatMap_cons, Lines.run_append, run_text, h]
    rfl

theorem head?_lines (e : LogEntry) (cs : List Char) : (e.lines ++ cs).head? = some 'i' := rfl

theorem events_body (es : List LogEntry) : events (body es) = es.map LogEntry.event := by
  have hb : (es.flatMap LogEntry.text).head? ≠ some byteOrderMark := by
    cases es with
    | nil => simp
    | cons e es =>
      rw [List.flatMap_cons, LogEntry.text, List.append_assoc, head?_lines]
      decide
  obtain ⟨id, h⟩ := run_flatMap_text es []
  rw [body, events_encode hb]
  exact congrArg Prod.snd h

/-- Without its last line feed an entry yields nothing. -/
theorem events_body_append_lines (es : List LogEntry) (e : LogEntry) :
    events (body es ++ Utf8.encode e.lines) = es.map LogEntry.event := by
  have henc : body es ++ Utf8.encode e.lines =
      Utf8.encode (es.flatMap LogEntry.text ++ e.lines) := by
    simp [body, Utf8.encode]
  have hb : (es.flatMap LogEntry.text ++ e.lines).head? ≠ some byteOrderMark := by
    cases es with
    | nil =>
      rw [List.flatMap_nil, List.nil_append, ← List.append_nil e.lines, head?_lines]
      decide
    | cons f es =>
      rw [List.flatMap_cons, LogEntry.text, List.append_assoc, List.append_assoc, head?_lines]
      decide
  obtain ⟨id, h⟩ := run_flatMap_text es []
  rw [henc, events_encode hb]
  change ((idle []).run _).2 = _
  rw [Lines.run_append, h, run_lines, List.append_nil]

theorem body_append (es fs : List LogEntry) : body (es ++ fs) = body es ++ body fs := by
  simp [body, Utf8.encode]

theorem body_singleton (e : LogEntry) : body [e] = Utf8.encode e.lines ++ [10] := by
  simp [body, Utf8.encode, LogEntry.text]
  decide

theorem body_take_isPrefix (es : List LogEntry) (j : Nat) : body (es.take j) <+: body es :=
  ⟨body (es.drop j), by rw [← body_append, List.take_append_drop]⟩

/-- Of a body as far as it has arrived, the decoder makes the events of the entries that have
arrived completely. -/
theorem events_of_prefix {es : List LogEntry} {bs : List UInt8} (h : bs <+: body es) :
    ∃ m ≤ es.length, events bs = (es.take m).map LogEntry.event ∧
      ∀ j ≤ es.length, body (es.take j) <+: bs ↔ j ≤ m := by
  have hp : events bs <+: es.map LogEntry.event := events_body es ▸ events_mono h
  have hm : (events bs).length ≤ es.length := by simpa using hp.length_le
  refine ⟨(events bs).length, hm, ?_, ?_⟩
  · rw [List.map_take]
    exact List.prefix_iff_eq_take.mp hp
  · intro j hj
    constructor
    · intro hb
      have hl := (events_mono hb).length_le
      rw [events_body, List.length_map, List.length_take] at hl
      omega
    · intro hjm
      cases j with
      | zero => exact List.nil_prefix
      | succ i =>
        by_contra hb
        -- then the last byte of the entry has not arrived, and the decoder has not made it
        have hlast : body (es.take (i + 1)) =
            body (es.take i) ++ Utf8.encode es[i].lines ++ [10] := by
          rw [← List.take_append_getElem hj, body_append, body_singleton, List.append_assoc]
        have hcut : bs <+: body (es.take i) ++ Utf8.encode es[i].lines := by
          rcases List.prefix_or_prefix_of_prefix h (body_take_isPrefix es (i + 1)) with hpre | hpre
          · rw [hlast] at hpre hb
            rcases List.prefix_concat_iff.mp hpre with rfl | hpre
            · exact absurd (List.prefix_refl _) hb
            · exact hpre
          · exact absurd hpre hb
        have hl := (events_mono hcut).length_le
        rw [events_body_append_lines, List.length_map, List.length_take] at hl
        omega

end ShipBridge.EventStream
