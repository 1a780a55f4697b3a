import ShipBridge.Proofs.Editor.Framing

/-!
# What begins with a frame

An input begins with a frame if it has, in this order, stray blank lines, header lines, a blank line
that closes the header, and as many bytes as the last header line that gives a length says. Reading
accepts exactly these inputs and takes exactly the frame off them, and it comes to the end exactly
at an input of blank lines alone.

The one thing that the reader does not insist on is the end of a line that the end of the input
cuts off. Where such a line is a header line, nothing comes after it and the header stays open. But
carriage returns cut off in this way pass for a blank line, so a header that they close is taken
for a whole one; with no more input to come, the body can only be empty.

The lines are cut off by their last bytes before they are known to be text. A line feed stands in an
encoded text only for itself, so the two views of a line agree.
-/

namespace ShipBridge.Editor.Framing

def carriageReturn : UInt8 := 13

/-- Carriage returns and nothing else. -/
def Returns (line : List UInt8) : Prop := ∀ b ∈ line, b = carriageReturn

/-- A line feed with nothing but carriage returns before it. -/
def BlankLine (line : List UInt8) : Prop := ∃ cs, Returns cs ∧ line = cs ++ [lineFeed]

/-- A line that gives a header. Its first colon ends the name. -/
structure HeaderLine where
  name : List Char
  value : List Char
  colon_notMem : ':' ∉ name
  lineFeed_notMem : '\n' ∉ name ++ value

namespace HeaderLine

def text (l : HeaderLine) : List Char := l.name ++ ':' :: l.value

def bytes (l : HeaderLine) : List UInt8 := Utf8.encode l.text ++ [lineFeed]

def GivesLength (l : HeaderLine) : Prop := (Text.trim l.name).map Char.toLower = contentLength

instance (l : HeaderLine) : Decidable l.GivesLength := inferInstanceAs (Decidable (_ = _))

def number? (l : HeaderLine) : Option Nat := Numeral.read64? (Text.trim l.value)

end HeaderLine

/-- The number in the last line that gives the length of the body. -/
def lastLength? (headers : List HeaderLine) : Option Nat :=
  (headers.filter fun l => l.GivesLength).getLast?.bind HeaderLine.number?

/-- An input that begins with a frame: stray blank lines, the header lines, a line that `closes`
the header in front of what follows it, the body, and a rest. -/
def BeginsWith (closes : List UInt8 → List UInt8 → Prop) (limit : Nat)
    (input body rest : List UInt8) : Prop :=
  ∃ (strays : List (List UInt8)) (headers : List HeaderLine) (closing : List UInt8),
    input = strays.flatten ++ headers.flatMap HeaderLine.bytes ++ closing ++ body ++ rest ∧
    (∀ line ∈ strays, BlankLine line) ∧ headers ≠ [] ∧
    (∀ l ∈ headers, l.GivesLength → l.number?.isSome) ∧
    lastLength? headers = some body.length ∧ body.length ≤ limit ∧ closes closing (body ++ rest)

/-- A header is closed by a blank line, and where the input ends also by carriage returns alone. -/
def Closes (closing after : List UInt8) : Prop :=
  BlankLine closing ∨ Returns closing ∧ closing ≠ [] ∧ after = []

/-- Blank lines and nothing else. The last may lack its end. -/
def Blank (input : List UInt8) : Prop :=
  ∃ (strays : List (List UInt8)) (cs : List UInt8), input = strays.flatten ++ cs ∧
    (∀ line ∈ strays, BlankLine line) ∧ Returns cs

/-! ## Cutting lines off -/

variable {limit : Nat} {closed inHeader : Bool} {length : Option Nat}
variable {bytes line rest body : List UInt8}

theorem of_cutLine {acc : List UInt8} (h : cutLine acc bytes = some (line, rest)) :
    ∃ l, line = acc.reverse ++ l ∧ bytes = l ++ lineFeed :: rest ∧ lineFeed ∉ l := by
  induction bytes generalizing acc with
  | nil => cases h
  | cons b bs ih =>
    rw [cutLine] at h
    split_ifs at h with hb
    · obtain ⟨rfl, rfl⟩ := Prod.mk.inj (Option.some.inj h)
      exact ⟨[], (List.append_nil _).symm, by rw [hb, List.nil_append], List.not_mem_nil⟩
    · obtain ⟨l, hline, hbs, hl⟩ := ih h
      refine ⟨b :: l, ?_, by rw [hbs]; rfl, ?_⟩
      · rw [hline, List.reverse_cons, List.append_assoc, List.singleton_append]
      · rw [List.mem_cons, not_or]
        exact ⟨Ne.symm hb, hl⟩

theorem cutLine_eq_some (h : cutLine [] bytes = some (line, rest)) :
    bytes = line ++ [lineFeed] ++ rest ∧ lineFeed ∉ line := by
  obtain ⟨l, hline, hbytes, hl⟩ := of_cutLine h
  rw [List.reverse_nil, List.nil_append] at hline
  rw [hline, hbytes, List.append_assoc, List.singleton_append]
  exact ⟨rfl, hl⟩

theorem lineFeed_notMem_of_cutLine {acc : List UInt8} (h : cutLine acc bytes = none) :
    lineFeed ∉ bytes := by
  induction bytes generalizing acc with
  | nil => exact List.not_mem_nil
  | cons b bs ih =>
    rw [cutLine] at h
    split_ifs at h with hb
    rw [List.mem_cons, not_or]
    exact ⟨Ne.symm hb, ih h⟩

theorem cutLine_eq_none (h : lineFeed ∉ bytes) {acc : List UInt8} : cutLine acc bytes = none := by
  induction bytes generalizing acc with
  | nil => rfl
  | cons b bs ih =>
    rw [List.mem_cons, not_or] at h
    rw [cutLine, if_neg (Ne.symm h.1), ih h.2]

theorem cutLine_ended (h : lineFeed ∉ line) (rest : List UInt8) :
    cutLine [] (line ++ [lineFeed] ++ rest) = some (line, rest) := by
  rw [List.append_assoc, List.singleton_append, cutLine_line h, List.reverse_nil, List.nil_append]

/-! ## The text of a line -/

/-- A text less the line feeds and carriage returns at its end. -/
def stripped (cs : List Char) : List Char :=
  (cs.reverse.dropWhile fun c => c == '\r' || c == '\n').reverse

theorem lineText_eq_ok {t : List Char} :
    lineText bytes = .ok t ↔ ∃ cs, bytes = Utf8.encode cs ∧ stripped cs = t := by
  unfold lineText
  constructor
  · intro h
    split at h
    · next cs hsplit => exact ⟨cs, Utf8.split_eq_iff.mp hsplit, Except.ok.inj h⟩
    · cases h
  · rintro ⟨cs, rfl, rfl⟩
    rw [Utf8.split_encode]
    rfl

theorem stripped_concat (cs : List Char) : stripped (cs ++ ['\n']) = stripped cs := by
  rw [stripped, List.reverse_append, List.reverse_singleton, List.singleton_append,
    List.dropWhile_cons_of_pos (by decide), stripped]

theorem stripped_append_colon (name value : List Char) :
    stripped (name ++ ':' :: value) = name ++ ':' :: stripped value := by
  rw [stripped, List.reverse_append, List.reverse_cons, List.append_assoc, List.dropWhile_append]
  split_ifs with h
  · rw [List.singleton_append, List.dropWhile_cons_of_neg (by decide), stripped,
      List.isEmpty_iff.mp h]
    simp
  · rw [stripped]
    simp

theorem stripped_eq_nil {cs : List Char} : stripped cs = [] ↔ ∀ c ∈ cs, c = '\r' ∨ c = '\n' := by
  rw [stripped, List.reverse_eq_nil_iff, List.dropWhile_eq_nil_iff]
  simp

theorem trim_stripped (cs : List Char) : Text.trim (stripped cs) = Text.trim cs := by
  have hsplit : cs = stripped cs ++
      (cs.reverse.takeWhile fun c => c == '\r' || c == '\n').reverse := by
    rw [stripped, ← List.reverse_append, List.takeWhile_append_dropWhile, List.reverse_reverse]
  conv_rhs => rw [hsplit]
  refine (Text.trim_append fun c hc => ?_).symm
  have hend := List.mem_takeWhile_imp (List.mem_reverse.mp hc)
  rw [Bool.or_eq_true, beq_iff_eq, beq_iff_eq] at hend
  rcases hend with rfl | rfl <;> rfl

theorem encode_map_ofNat (h : ∀ b ∈ bytes, b.toNat < 0x80) :
    Utf8.encode (bytes.map fun b => Char.ofNat b.toNat) = bytes := by
  induction bytes with
  | nil => rfl
  | cons b bs ih =>
    have hb := h b List.mem_cons_self
    have hv : (Char.ofNat b.toNat).toNat = b.toNat := Utf8.toNat_charOfNat (.inl (by omega))
    have hrest := ih fun c hc => h c (List.mem_cons_of_mem _ hc)
    rw [List.map_cons, Utf8.encode, List.flatMap_cons, Utf8.encodeChar_of_lt (by omega), hv,
      UInt8.ofNat_toNat]
    exact congrArg (b :: ·) hrest

theorem lineText_eq_nil :
    lineText bytes = .ok [] ↔ ∀ b ∈ bytes, b = carriageReturn ∨ b = lineFeed := by
  rw [lineText_eq_ok]
  constructor
  · rintro ⟨cs, rfl, hcs⟩ b hb
    obtain ⟨c, hc, hbyte⟩ := List.mem_flatMap.mp hb
    rcases stripped_eq_nil.mp hcs c hc with rfl | rfl
    · exact .inl (List.mem_singleton.mp hbyte)
    · exact .inr (List.mem_singleton.mp hbyte)
  · intro h
    refine ⟨bytes.map fun b => Char.ofNat b.toNat, ?_, stripped_eq_nil.mpr fun c hc => ?_⟩
    · refine (encode_map_ofNat fun b hb => ?_).symm
      rcases h b hb with rfl | rfl <;> decide
    · obtain ⟨b, hb, rfl⟩ := List.mem_map.mp hc
      rcases h b hb with rfl | rfl
      · exact .inl rfl
      · exact .inr rfl

theorem lineText_of_returns (h : Returns line) :
    lineText line = .ok [] ∧ lineText (line ++ [lineFeed]) = .ok [] := by
  refine ⟨lineText_eq_nil.mpr fun b hb => .inl (h b hb), lineText_eq_nil.mpr fun b hb => ?_⟩
  rw [List.mem_append, List.mem_singleton] at hb
  exact hb.imp_left (h b)

theorem lineFeed_notMem_of_returns (h : Returns line) : lineFeed ∉ line :=
  fun hmem => absurd (h lineFeed hmem) (by decide)

theorem returns_of_lineText (hl : lineFeed ∉ line) (h : lineText (line ++ [lineFeed]) = .ok []) :
    Returns line := fun b hb =>
  (lineText_eq_nil.mp h b (List.mem_append_left _ hb)).resolve_right fun heq => hl (heq ▸ hb)

theorem returns_of_cutOff (hcut : cutLine [] line = none) (h : lineText line = .ok []) :
    Returns line := fun b hb =>
  (lineText_eq_nil.mp h b hb).resolve_right fun heq => lineFeed_notMem_of_cutLine hcut (heq ▸ hb)

/-! ## Header lines -/

namespace HeaderLine

variable (l : HeaderLine)

def note (known : Option Nat) : Option Nat := if l.GivesLength then l.number? else known

def Readable : Prop := l.GivesLength → l.number?.isSome

theorem lineFeed_notMem_text : '\n' ∉ l.text := by
  have h := l.lineFeed_notMem
  rw [List.mem_append, not_or] at h
  simp [text, h]

theorem lineText_bytes : lineText l.bytes = .ok (l.name ++ ':' :: stripped l.value) := by
  refine lineText_eq_ok.mpr ⟨l.text ++ ['\n'], ?_, ?_⟩
  · rw [Utf8.encode_append]
    rfl
  · rw [stripped_concat, text, stripped_append_colon]

theorem cutLine_bytes (rest : List UInt8) :
    cutLine [] (l.bytes ++ rest) = some (Utf8.encode l.text, rest) :=
  cutLine_ended (lineFeed_notMem_encode l.lineFeed_notMem_text) rest

theorem headerLength_eq (known : Option Nat) :
    headerLength known (l.name ++ ':' :: stripped l.value) =
      if l.GivesLength then match l.number? with
        | some n => .ok (some n)
        | none => .error (.invalidLength (String.ofList (Text.trim l.value)))
      else .ok known := by
  rw [headerLength_of_colon known l.colon_notMem, trim_stripped]
  rfl

variable {l}

theorem headerLength_eq_ok {known noted : Option Nat} :
    headerLength known (l.name ++ ':' :: stripped l.value) = .ok noted ↔
      l.Readable ∧ noted = l.note known := by
  rw [headerLength_eq, Readable, note]
  split_ifs with h
  · cases hnumber : l.number? with
    | none => exact ⟨nofun, fun hread => absurd (hread.1 h) Bool.false_ne_true⟩
    | some n =>
      exact ⟨fun heq => ⟨fun _ => rfl, (Except.ok.inj heq).symm⟩, fun hread => by rw [hread.2]⟩
  · exact ⟨fun heq => ⟨fun hgives => absurd hgives h, (Except.ok.inj heq).symm⟩,
      fun hread => by rw [hread.2]⟩

theorem scanLines_bytes (h : l.Readable) (rest : List UInt8) :
    scanLines limit closed inHeader length (l.bytes ++ rest) =
      scanLines limit closed true (l.note length) rest := by
  have htext := l.lineText_bytes
  have hlength : headerLength length _ = .ok (l.note length) :=
    headerLength_eq_ok.mpr ⟨h, rfl⟩
  rw [scanLines_of_cut (l.cutLine_bytes rest), ← bytes, htext]
  cases hname : l.name ++ ':' :: stripped l.value with
  | nil => exact absurd hname (List.append_ne_nil_of_right_ne_nil _ (List.cons_ne_nil _ _))
  | cons c cs =>
    rw [hname] at hlength
    dsimp only
    rw [hlength]

end HeaderLine

theorem colon_mem_of_headerLength {t : List Char} {known noted : Option Nat}
    (h : headerLength known t = .ok noted) : ':' ∈ t := by
  unfold headerLength at h
  split_ifs at h with hcolon
  exact List.contains_iff_mem.mp hcolon

/-- A line in whose text there is a colon is a header line. -/
theorem exists_headerLine {t : List Char} (hl : lineFeed ∉ line)
    (ht : lineText (line ++ [lineFeed]) = .ok t) (hcolon : ':' ∈ t) :
    ∃ l : HeaderLine, line ++ [lineFeed] = l.bytes ∧ t = l.name ++ ':' :: stripped l.value := by
  obtain ⟨cs, hline, rfl⟩ := lineText_eq_ok.mp ht
  -- The text ends in a line feed, since no other character ends in that byte.
  obtain ⟨ds, rfl⟩ : ∃ ds, cs = ds ++ ['\n'] := by
    rcases List.eq_nil_or_concat cs with rfl | ⟨ds, c, rfl⟩
    · cases line <;> cases hline
    · obtain ⟨init, last, -, hchar, -, -⟩ := Utf8.completes_encodeChar c
      have hend : Utf8.encode [c] = init ++ [last] := by
        rw [← hchar]
        exact List.flatMap_singleton _ _
      rw [List.concat_eq_append, Utf8.encode_append, hend, ← List.append_assoc] at hline
      have hlast : [lineFeed] = [last] := List.append_inj_right' hline rfl
      have hmem : lineFeed ∈ String.utf8EncodeChar c := by
        rw [hchar, ← hlast]
        exact List.mem_append_right _ (List.mem_singleton_self _)
      have hc : c = '\n' := Char.toNat_inj.mp (Utf8.eq_of_mem_encodeChar hmem (by decide))
      exact ⟨ds, by rw [hc, List.concat_eq_append]⟩
  rw [Utf8.encode_append] at hline
  have hds : line = Utf8.encode ds := List.append_cancel_right hline
  rw [stripped_concat] at hcolon ⊢
  have hmem : ':' ∈ ds :=
    List.mem_reverse.mp ((List.dropWhile_sublist _).subset (List.mem_reverse.mp hcolon))
  obtain ⟨name, value, rfl, hname⟩ := List.eq_append_cons_of_mem hmem
  have hfeed : '\n' ∉ name ++ ':' :: value := by
    rw [← Utf8.mem_encode_iff (by decide), ← hds]
    exact hl
  refine ⟨⟨name, value, hname, fun h => hfeed ?_⟩, ?_, stripped_append_colon name value⟩
  · rw [List.mem_append] at h ⊢
    exact h.imp_right (List.mem_cons_of_mem _)
  · rw [hds]
    rfl

/-! ## A header from its lines -/

theorem scanLines_stray (h : BlankLine line) (rest : List UInt8) :
    scanLines limit closed false length (line ++ rest) =
      scanLines limit closed false length rest := by
  obtain ⟨cs, hcs, rfl⟩ := h
  rw [scanLines_of_cut (cutLine_ended (lineFeed_notMem_of_returns hcs) rest),
    (lineText_of_returns hcs).2]
  rfl

theorem scanLines_strays {strays : List (List UInt8)} (h : ∀ line ∈ strays, BlankLine line)
    (rest : List UInt8) : scanLines limit closed false length (strays.flatten ++ rest) =
      scanLines limit closed false length rest := by
  induction strays with
  | nil => rfl
  | cons line strays ih =>
    rw [List.flatten_cons, List.append_assoc, scanLines_stray (h line List.mem_cons_self),
      ih fun l hl => h l (List.mem_cons_of_mem _ hl)]

theorem scanLines_closing (h : BlankLine line) (rest : List UInt8) :
    scanLines limit closed true length (line ++ rest) = scanBody limit closed length rest := by
  obtain ⟨cs, hcs, rfl⟩ := h
  rw [scanLines_of_cut (cutLine_ended (lineFeed_notMem_of_returns hcs) rest),
    (lineText_of_returns hcs).2]
  rfl

/-- Carriage returns that the end of the input cuts off count as a blank line. -/
theorem scanLines_of_returns (h : Returns line) : scanLines limit true inHeader length line =
    if inHeader then (if line = [] then .flawed .endInHeader else scanBody limit true length [])
    else .ended := by
  have hcut : cutLine [] line = none := cutLine_eq_none (lineFeed_notMem_of_returns h)
  rw [scanLines]
  split
  · next heq =>
    rw [hcut] at heq
    cases heq
  · simp only [(lineText_of_returns h).1, List.isEmpty_iff]
    cases inHeader <;> simp

/-- What is known of the body's length after some lines. -/
def noted (known : Option Nat) (headers : List HeaderLine) : Option Nat :=
  headers.foldl (fun known l => l.note known) known

theorem scanLines_headers {headers : List HeaderLine} (h : ∀ l ∈ headers, l.Readable)
    (rest : List UInt8) :
    scanLines limit closed inHeader length (headers.flatMap HeaderLine.bytes ++ rest) =
      scanLines limit closed (inHeader || !headers.isEmpty) (noted length headers) rest := by
  induction headers generalizing inHeader length with
  | nil => rw [List.isEmpty_nil, Bool.not_true, Bool.or_false]; rfl
  | cons l headers ih =>
    rw [List.flatMap_cons, List.append_assoc,
      HeaderLine.scanLines_bytes (h l List.mem_cons_self),
      ih fun m hm => h m (List.mem_cons_of_mem _ hm), List.isEmpty_cons, Bool.not_false,
      Bool.or_true, Bool.true_or]
    rfl

theorem noted_concat (known : Option Nat) (headers : List HeaderLine) (l : HeaderLine) :
    noted known (headers ++ [l]) = l.note (noted known headers) := List.foldl_append

theorem noted_eq {headers : List HeaderLine} (h : ∀ l ∈ headers, l.Readable)
    (known : Option Nat) : noted known headers = (lastLength? headers).or known := by
  induction headers using List.reverseRecOn with
  | nil => rfl
  | append_singleton headers l ih =>
    have hl : l.Readable := h l (List.mem_append_right _ (List.mem_singleton_self l))
    rw [noted_concat, ih fun m hm => h m (List.mem_append_left _ hm), HeaderLine.note, lastLength?,
      lastLength?, List.filter_append]
    split_ifs with hgives
    · obtain ⟨n, hn⟩ := Option.isSome_iff_exists.mp (hl hgives)
      simp [hgives, hn]
    · simp [hgives]

theorem scanBody_eq_frame : scanBody limit true length bytes = .frame body rest ↔
    length = some body.length ∧ body.length ≤ limit ∧ bytes = body ++ rest := by
  unfold scanBody
  constructor
  · intro h
    split at h
    · cases h
    · next n =>
      split_ifs at h with hlimit harrived
      obtain ⟨rfl, rfl⟩ := Scan.frame.inj h
      rw [List.length_take, Nat.min_eq_left harrived]
      exact ⟨rfl, Nat.le_of_not_lt hlimit, (List.take_append_drop n bytes).symm⟩
  · rintro ⟨rfl, hlimit, rfl⟩
    dsimp only
    rw [if_neg (Nat.not_lt.mpr hlimit), if_pos (by rw [List.length_append]; omega),
      List.take_left, List.drop_left]

/-! ## The lines of what has been accepted -/

/-- An input that goes on to a frame: stray lines if no header line has been read, else any number
of header lines. -/
def Continues (limit : Nat) (inHeader : Bool) (length : Option Nat)
    (input body rest : List UInt8) : Prop :=
  ∃ (strays : List (List UInt8)) (headers : List HeaderLine) (closing : List UInt8),
    input = strays.flatten ++ headers.flatMap HeaderLine.bytes ++ closing ++ body ++ rest ∧
    (inHeader = true → strays = []) ∧ (∀ line ∈ strays, BlankLine line) ∧
    (inHeader = false → headers ≠ []) ∧ (∀ l ∈ headers, l.Readable) ∧
    noted length headers = some body.length ∧ body.length ≤ limit ∧ Closes closing (body ++ rest)

theorem continues_of_scanBody {closing later : List UInt8}
    (h : scanBody limit true length later = .frame body rest) (hc : Closes closing later) :
    Continues limit true length (closing ++ later) body rest := by
  obtain ⟨hlength, hlimit, rfl⟩ := scanBody_eq_frame.mp h
  exact ⟨[], [], closing, by simp, fun _ => rfl, nofun, nofun, nofun, hlength, hlimit, hc⟩

theorem Continues.stray (h : Continues limit false length bytes body rest) (hl : BlankLine line) :
    Continues limit false length (line ++ bytes) body rest := by
  obtain ⟨strays, headers, closing, rfl, -, hstrays, hfalse, hread, hlength, hlimit, hc⟩ := h
  refine ⟨line :: strays, headers, closing, ?_, nofun, List.forall_mem_cons.mpr ⟨hl, hstrays⟩,
    hfalse, hread, hlength, hlimit, hc⟩
  simp only [List.flatten_cons, List.append_assoc]

theorem Continues.header {l : HeaderLine} (h : Continues limit true (l.note length) bytes body rest)
    (hl : l.Readable) : Continues limit inHeader length (l.bytes ++ bytes) body rest := by
  obtain ⟨strays, headers, closing, rfl, htrue, -, -, hread, hlength, hlimit, hc⟩ := h
  refine ⟨[], l :: headers, closing, ?_, fun _ => rfl, nofun, fun _ => List.cons_ne_nil _ _,
    List.forall_mem_cons.mpr ⟨hl, hread⟩, hlength, hlimit, hc⟩
  rw [htrue rfl]
  simp only [List.flatMap_cons, List.flatten_nil, List.nil_append, List.append_assoc]

theorem continues_of_scanLines (h : scanLines limit true inHeader length bytes = .frame body rest) :
    Continues limit inHeader length bytes body rest := by
  fun_induction scanLines limit true inHeader length bytes with
  | case2 length bytes line later hcut hlt htext =>
    obtain ⟨rfl, hfeed⟩ := cutLine_eq_some hcut
    exact continues_of_scanBody h (.inl ⟨line, returns_of_lineText hfeed htext, rfl⟩)
  | case3 inHeader length bytes line later hcut hlt htext hblank ih =>
    obtain ⟨rfl, hfeed⟩ := cutLine_eq_some hcut
    rw [eq_false_of_ne_true hblank]
    exact (ih h).stray ⟨line, returns_of_lineText hfeed htext, rfl⟩
  | case5 inHeader known bytes line later hcut hlt header hne htext length hlength ih =>
    obtain ⟨rfl, hfeed⟩ := cutLine_eq_some hcut
    obtain ⟨l, hline, rfl⟩ := exists_headerLine hfeed htext (colon_mem_of_headerLength hlength)
    obtain ⟨hread, rfl⟩ := HeaderLine.headerLength_eq_ok.mp hlength
    rw [hline]
    exact (ih h).header hread
  | case10 length bytes hcut hclosed hne htext =>
    have hbytes : bytes ≠ [] := fun hnil => hne (List.isEmpty_iff.mpr hnil)
    have hcontinues := continues_of_scanBody h (.inr ⟨returns_of_cutOff hcut htext, hbytes, rfl⟩)
    rwa [List.append_nil] at hcontinues
  | _ => cases h

theorem scanBody_ne_ended : scanBody limit closed length bytes ≠ .ended := by
  unfold scanBody
  split
  · exact Scan.noConfusion
  · split_ifs <;> exact Scan.noConfusion

theorem Blank.stray {input : List UInt8} (h : Blank input) (hl : BlankLine line) :
    Blank (line ++ input) := by
  obtain ⟨strays, cs, rfl, hstrays, hcs⟩ := h
  exact ⟨line :: strays, cs, by rw [List.flatten_cons, List.append_assoc],
    List.forall_mem_cons.mpr ⟨hl, hstrays⟩, hcs⟩

theorem blank_of_returns (h : Returns line) : Blank line := ⟨[], line, rfl, nofun, h⟩

theorem blank_nil : Blank [] := blank_of_returns nofun

theorem blank_of_scanLines (h : scanLines limit true inHeader length bytes = .ended) :
    inHeader = false ∧ Blank bytes := by
  fun_induction scanLines limit true inHeader length bytes with
  | case2 => exact absurd h scanBody_ne_ended
  | case3 inHeader length bytes line later hcut hlt htext hblank ih =>
    obtain ⟨rfl, hfeed⟩ := cutLine_eq_some hcut
    exact ⟨eq_false_of_ne_true hblank,
      (ih h).2.stray ⟨line, returns_of_lineText hfeed htext, rfl⟩⟩
  | case5 inHeader known bytes line later hcut hlt header hne htext length hlength ih =>
    exact absurd (ih h).1.symm Bool.false_ne_true
  | case8 inHeader length bytes hcut hclosed hempty hblank =>
    rw [List.isEmpty_iff] at hempty
    subst hempty
    exact ⟨eq_false_of_ne_true hblank, blank_nil⟩
  | case10 => exact absurd h scanBody_ne_ended
  | case11 inHeader length bytes hcut hclosed hne htext hblank =>
    exact ⟨eq_false_of_ne_true hblank, blank_of_returns (returns_of_cutOff hcut htext)⟩
  | _ => cases h

/-! ## Reading and the grammar -/

theorem beginsWith_of_continues {input : List UInt8}
    (h : Continues limit false none input body rest) : BeginsWith Closes limit input body rest := by
  obtain ⟨strays, headers, closing, hinput, -, hstrays, hfalse, hread, hlength, hlimit, hc⟩ := h
  rw [noted_eq hread, Option.or_none] at hlength
  exact ⟨strays, headers, closing, hinput, hstrays, hfalse rfl, hread, hlength, hlimit, hc⟩

theorem scan_of_beginsWith {input : List UInt8} (h : BeginsWith Closes limit input body rest) :
    scan limit true input = .frame body rest := by
  obtain ⟨strays, headers, closing, rfl, hstrays, hne, hread, hlength, hlimit, hc⟩ := h
  have hheader : (false || !headers.isEmpty) = true := by
    rw [Bool.false_or, Bool.not_eq_true', List.isEmpty_eq_false_iff]
    exact hne
  simp only [List.append_assoc]
  rw [scan, scanLines_strays hstrays, scanLines_headers hread, hheader, noted_eq hread, hlength,
    Option.some_or]
  rcases hc with hblank | ⟨hreturns, hsome, hafter⟩
  · rw [scanLines_closing hblank]
    exact scanBody_eq_frame.mpr ⟨rfl, hlimit, rfl⟩
  · obtain ⟨rfl, rfl⟩ := List.append_eq_nil_iff.mp hafter
    rw [List.append_nil, List.append_nil, scanLines_of_returns hreturns, if_pos rfl,
      if_neg hsome]
    exact scanBody_eq_frame.mpr ⟨rfl, hlimit, rfl⟩

theorem scan_eq_frame_iff {input : List UInt8} :
    scan limit true input = .frame body rest ↔ BeginsWith Closes limit input body rest :=
  ⟨fun h => beginsWith_of_continues (continues_of_scanLines h), scan_of_beginsWith⟩

theorem scan_eq_ended_iff (limit : Nat) {input : List UInt8} :
    scan limit true input = .ended ↔ Blank input := by
  refine ⟨fun h => (blank_of_scanLines h).2, ?_⟩
  rintro ⟨strays, cs, rfl, hstrays, hcs⟩
  rw [scan, scanLines_strays hstrays, scanLines_of_returns hcs]
  rfl

/-- A call reads a body, and leaves a rest, exactly if the input begins with a frame of that body in
front of that rest; it reads the end exactly if the input is blank; and everything else is a flaw.
The pieces in which the input comes, and what of it is held before the call, do not matter. -/
theorem readMessage_iff (limit : Nat) (i : Input) :
    (∀ body rest,
      (∃ later, readMessage limit i.held i.coming = (.body body, later) ∧ later.whole = rest) ↔
        BeginsWith Closes limit i.whole body rest) ∧
    ((∃ later, readMessage limit i.held i.coming = (.ended, later)) ↔ Blank i.whole) ∧
    ((∃ f later, readMessage limit i.held i.coming = (.flawed f, later)) ↔
      (∀ body rest, ¬ BeginsWith Closes limit i.whole body rest) ∧ ¬ Blank i.whole) := by
  have hread := readMessage_eq limit i.held i.coming
  simp only [← scan_eq_frame_iff, ← scan_eq_ended_iff limit]
  rw [← Input.whole] at hread
  cases hscan : scan limit true i.whole with
  | frame body rest =>
    rw [hscan] at hread
    obtain ⟨later, hread, rfl⟩ := hread
    simp [hread]
  | flawed f =>
    rw [hscan] at hread
    obtain ⟨later, hread⟩ := hread
    simp [hread]
  | ended =>
    rw [hscan] at hread
    simp only at hread
    simp [hread]
  | waiting => exact absurd hscan scan_ne_waiting

theorem lineFeed_mem_of_blankLine (h : BlankLine line) : lineFeed ∈ line := by
  obtain ⟨cs, -, rfl⟩ := h
  exact List.mem_append_right _ (List.mem_singleton_self _)

/-- A header whose blank line is cut off: the input ends inside the header, and yet a body is read
from it. With the end of that line demanded too, no body is there. -/
theorem cut_off_header_read :
    let input := Utf8.encode "Content-Length: 0\r\n\r".toList
    (∃ later, readMessage 1024 [] [input] = (.body [], later) ∧ later.whole = []) ∧
      ¬ (∃ body rest, BeginsWith (fun closing _ => BlankLine closing) 1024 input body rest) ∧
      ¬ Blank input := by
  intro input
  let header : HeaderLine := ⟨"Content-Length".toList, " 0\r".toList, by decide, by decide⟩
  have hscan : scan 1024 true input = .frame [] [] := by
    refine scan_of_beginsWith ⟨[], [header], [carriageReturn], by decide, nofun, by simp, ?_, ?_,
      Nat.zero_le _, .inr ⟨by simp [Returns], by simp, rfl⟩⟩
    · simp only [List.forall_mem_singleton]
      decide
    · decide
  refine ⟨readMessage_of_frame (by simpa using hscan), ?_, fun hblank => ?_⟩
  · rintro ⟨body, rest, strays, headers, closing, hinput, -, hne, -, -, -, hclosing⟩
    -- The header line and the line after it would each have a line feed, but there is only one.
    have hcount : input.count lineFeed = 1 := by decide
    have hclose : 0 < closing.count lineFeed :=
      List.count_pos_iff.mpr (lineFeed_mem_of_blankLine hclosing)
    have hheaders : 0 < (headers.flatMap HeaderLine.bytes).count lineFeed := by
      obtain ⟨l, hl⟩ := List.exists_mem_of_ne_nil headers hne
      refine List.count_pos_iff.mpr (List.mem_flatMap.mpr ⟨l, hl, ?_⟩)
      exact List.mem_append_right _ (List.mem_singleton_self _)
    rw [hinput] at hcount
    simp only [List.count_append] at hcount
    omega
  · rw [(scan_eq_ended_iff 1024).mpr hblank] at hscan
    cases hscan

end ShipBridge.Editor.Framing
