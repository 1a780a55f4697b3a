import ShipBridge.EventStream.Decoder
import ShipBridge.Proofs.Text.Utf8

/-!
# What a decoder makes of text

Bytes may arrive in any pieces: decoding two pieces one after the other is decoding both at once,
so what a longer body yields begins with what a shorter one yields. Fed the encoding of a text
that does not open with a byte order mark, the decoder does to its lines what the characters of
the text do.
-/

namespace ShipBridge.EventStream

/-- One step of a run, with the events so far, last first. -/
def Decoder.step (r : Decoder × List Event) (b : UInt8) : Decoder × List Event :=
  ((r.1.feed b).1, (r.1.feed b).2.elim r.2 (· :: r.2))

theorem Decoder.run_eq (d : Decoder) (bs : List UInt8) :
    d.run bs = ((bs.foldl step (d, [])).1, (bs.foldl step (d, [])).2.reverse) := rfl

theorem Decoder.foldl_step (d : Decoder) (bs : List UInt8) (es : List Event) :
    bs.foldl step (d, es) = ((bs.foldl step (d, [])).1, (bs.foldl step (d, [])).2 ++ es) := by
  induction bs generalizing d es with
  | nil => rfl
  | cons b bs ih =>
    rw [List.foldl_cons, List.foldl_cons, step, step, ih, ih _ (Option.elim _ _ _)]
    cases (d.feed b).2 <;> simp

theorem Decoder.run_cons (d : Decoder) (b : UInt8) (bs : List UInt8) : d.run (b :: bs) =
    (((d.feed b).1.run bs).1, (d.feed b).2.toList ++ ((d.feed b).1.run bs).2) := by
  rw [run_eq, run_eq, List.foldl_cons, step, foldl_step]
  cases (d.feed b).2 <;> simp

theorem Decoder.run_append (d : Decoder) (as bs : List UInt8) :
    d.run (as ++ bs) = (((d.run as).1.run bs).1, (d.run as).2 ++ ((d.run as).1.run bs).2) := by
  induction as generalizing d with
  | nil => rfl
  | cons a as ih => simp [run_cons, ih]

/-- The events of a body as far as it has arrived. -/
def events (bs : List UInt8) : List Event := (({} : Decoder).run bs).2

theorem events_append (as bs : List UInt8) :
    events (as ++ bs) = events as ++ ((({} : Decoder).run as).1.run bs).2 := by
  rw [events, Decoder.run_append]
  rfl

theorem events_mono {as bs : List UInt8} (h : as <+: bs) : events as <+: events bs := by
  obtain ⟨cs, rfl⟩ := h
  rw [events_append]
  exact List.prefix_append _ _

/-! ## Characters -/

def Lines.run (s : Lines) : List Char → Lines × List Event
  | [] => (s, [])
  | c :: cs => (((s.feed c).1.run cs).1, (s.feed c).2.toList ++ ((s.feed c).1.run cs).2)

theorem Lines.run_append (s : Lines) (as bs : List Char) :
    s.run (as ++ bs) = (((s.run as).1.run bs).1, (s.run as).2 ++ ((s.run as).1.run bs).2) := by
  induction as generalizing s with
  | nil => rfl
  | cons a as ih => simp [Lines.run, ih]

/-- Whatever bytes a decoder is fed, its lines take in the characters that they are decoded to, as
long as the body does not open with a byte order mark. -/
theorem Decoder.run_characters {d : Decoder} (bs : List UInt8) (hr : d.start ≠ .refused)
    (hb : d.start = .fresh → (Utf8.run d.utf8 bs).1.head? ≠ some byteOrderMark) :
    (d.run bs).1.utf8 = (Utf8.run d.utf8 bs).2 ∧ (d.run bs).1.start ≠ .refused ∧
      (d.run bs).2 = (d.lines.run (Utf8.run d.utf8 bs).1).2 := by
  induction bs generalizing d with
  | nil => exact ⟨rfl, hr, rfl⟩
  | cons b bs ih =>
    rw [run_cons, Utf8.run_cons]
    rw [Utf8.run_cons] at hb
    cases hc : (Utf8.feed d.utf8 b).2 with
    | none =>
      have hfeed : d.feed b = ({ d with utf8 := (Utf8.feed d.utf8 b).1 }, none) := by
        unfold Decoder.feed
        split <;> simp_all
      rw [hfeed]
      rw [hc] at hb
      exact ih hr hb
    | some c =>
      have hgo : ¬(d.start = .refused ∨ d.start = .fresh ∧ c = byteOrderMark) := by
        rintro (h | ⟨h, rfl⟩)
        · exact hr h
        · exact hb h (by rw [hc]; rfl)
      have hfeed : d.feed b =
          (⟨(Utf8.feed d.utf8 b).1, .started, (d.lines.feed c).1⟩, (d.lines.feed c).2) := by
        unfold Decoder.feed
        split <;> simp_all
      rw [hfeed]
      obtain ⟨hutf8, hstart, hevents⟩ :=
        ih (d := ⟨(Utf8.feed d.utf8 b).1, .started, (d.lines.feed c).1⟩) (by simp) (by simp)
      exact ⟨hutf8, hstart, congrArg ((d.lines.feed c).2.toList ++ ·) hevents⟩

theorem events_encode {cs : List Char} (h : cs.head? ≠ some byteOrderMark) :
    events (Utf8.encode cs) = (Lines.run {} cs).2 := by
  have hrun := Utf8.run_encode cs
  have hevents := (Decoder.run_characters (d := {}) (Utf8.encode cs) (by simp)
    (fun _ => by rw [hrun]; exact h)).2.2
  rw [events, hevents, hrun]

/-! ## Lines -/

theorem Lines.run_of_inside {s : Lines} (hs : s.afterReturn = false) {cs : List Char}
    (h : ∀ c ∈ cs, c ≠ '\n' ∧ c ≠ '\r') :
    s.run cs = ({ s with unfinished := cs.reverse ++ s.unfinished }, []) := by
  induction cs generalizing s with
  | nil => rfl
  | cons c cs ih =>
    obtain ⟨hn, hr⟩ := h c List.mem_cons_self
    have hfeed : s.feed c = ({ s with unfinished := c :: s.unfinished }, none) := by
      simp [Lines.feed, Lines.character, hs, hn, hr]
    rw [Lines.run, hfeed,
      ih (s := { s with unfinished := c :: s.unfinished }) hs fun d hd =>
        h d (List.mem_cons_of_mem c hd)]
    simp

/-- A whole line is taken in by the draft. -/
theorem Lines.run_line (d : Draft) {cs : List Char} (h : ∀ c ∈ cs, c ≠ '\n' ∧ c ≠ '\r') :
    Lines.run { draft := d } (cs ++ ['\n']) =
      ({ draft := (d.line cs).1 }, (d.line cs).2.toList) := by
  rw [Lines.run_append, Lines.run_of_inside rfl h]
  simp [Lines.run, Lines.feed, Lines.character, Lines.endLine]

end ShipBridge.EventStream
