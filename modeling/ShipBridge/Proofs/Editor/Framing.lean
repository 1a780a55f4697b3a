import Mathlib.Data.List.Induction
import ShipBridge.Editor.Outbound
import ShipBridge.Proofs.Text.Numeral
import ShipBridge.Proofs.Text.Utf8

/-!
# Frames are read back as they were written

Once a look at the bytes that have arrived has shown a frame or a flaw, further bytes change
nothing about it, so the pieces in which an input comes cannot matter. The header block of a
written frame gives the length of the body and ends where the body begins; whatever the body
contains, nothing of it is taken for a header, and the next frame starts right after it.
-/

namespace ShipBridge.Editor

namespace Framing

variable {limit : Nat} {closed inHeader : Bool} {length : Option Nat}
variable {bytes line rest body : List UInt8}

/-! ## Lines -/

theorem cutLine_append {acc : List UInt8} (h : cutLine acc bytes = some (line, rest))
    (more : List UInt8) : cutLine acc (bytes ++ more) = some (line, rest ++ more) := by
  induction bytes generalizing acc with
  | nil => cases h
  | cons b bs ih =>
    rw [cutLine] at h
    rw [List.cons_append, cutLine]
    split_ifs at h ⊢ with hb
    · obtain ⟨rfl, rfl⟩ := Prod.mk.inj (Option.some.inj h)
      rfl
    · exact ih h

theorem cutLine_line {acc : List UInt8} (h : lineFeed ∉ line) (rest : List UInt8) :
    cutLine acc (line ++ lineFeed :: rest) = some (acc.reverse ++ line, rest) := by
  induction line generalizing acc with
  | nil => simp [cutLine]
  | cons b bs ih =>
    rw [List.mem_cons, not_or] at h
    obtain ⟨hb, hbs⟩ := h
    rw [List.cons_append, cutLine, if_neg (Ne.symm hb), ih hbs, List.reverse_cons]
    simp

theorem scanLines_of_cut (h : cutLine [] bytes = some (line, rest)) :
    scanLines limit closed inHeader length bytes =
      match lineText (line ++ [lineFeed]) with
      | .error f => .flawed f
      | .ok [] =>
        if inHeader then scanBody limit closed length rest
        else scanLines limit closed false length rest
      | .ok header => match headerLength length header with
        | .error f => .flawed f
        | .ok length => scanLines limit closed true length rest := by
  rw [scanLines]
  split
  · next line' rest' h' =>
    obtain ⟨rfl, rfl⟩ := Prod.mk.inj (Option.some.inj (h.symm.trans h'))
    rfl
  · next h' => rw [h] at h'; cases h'

theorem scanLines_of_none (h : cutLine [] bytes = none) :
    scanLines limit false inHeader length bytes = .waiting := by
  rw [scanLines]
  split
  · next h' => rw [h] at h'; cases h'
  · rfl

/-! ## What has arrived decides -/

/-- What a look at the bytes has shown, after more of them have arrived. -/
def Scan.extend (more : List UInt8) : Scan → Scan
  | .frame body rest => .frame body (rest ++ more)
  | .flawed f => .flawed f
  | .ended => .ended
  | .waiting => .waiting

theorem scanBody_append (h : scanBody limit false length bytes ≠ .waiting) (more : List UInt8) :
    scanBody limit closed length (bytes ++ more) =
      (scanBody limit false length bytes).extend more := by
  unfold scanBody at h ⊢
  cases length with
  | none => rfl
  | some k =>
    dsimp only at h ⊢
    by_cases hlimit : limit < k
    · rw [if_pos hlimit, if_pos hlimit]
      rfl
    · rw [if_neg hlimit] at h ⊢
      rw [if_neg hlimit]
      by_cases harrived : k ≤ bytes.length
      · have hmore : k ≤ (bytes ++ more).length := by
          rw [List.length_append]
          omega
        rw [if_pos harrived, if_pos hmore, List.take_append_of_le_length harrived,
          List.drop_append_of_le_length harrived]
        rfl
      · rw [if_neg harrived] at h
        exact absurd rfl h

theorem scanLines_append (h : scanLines limit false inHeader length bytes ≠ .waiting)
    (more : List UInt8) : scanLines limit closed inHeader length (bytes ++ more) =
      (scanLines limit false inHeader length bytes).extend more := by
  induction hn : bytes.length using Nat.strongRecOn generalizing bytes inHeader length with
  | _ n ih =>
    subst hn
    cases hc : cutLine [] bytes with
    | none => exact absurd (scanLines_of_none hc) h
    | some p =>
      obtain ⟨line, rest⟩ := p
      have hlt := length_lt_of_cutLine hc
      rw [scanLines_of_cut hc] at h ⊢
      rw [scanLines_of_cut (cutLine_append hc more)]
      cases ht : lineText (line ++ [lineFeed]) with
      | error f => rfl
      | ok header =>
        rw [ht] at h
        cases header with
        | nil =>
          dsimp only at h ⊢
          split_ifs at h ⊢
          · exact scanBody_append h more
          · exact ih _ hlt h rfl
        | cons c header =>
          dsimp only at h ⊢
          cases hl : headerLength length (c :: header) with
          | error f => rfl
          | ok length' =>
            rw [hl] at h
            exact ih _ hlt h rfl

/-! ## The header block of a written frame -/

def lengthName : List Char := "Content-Length".toList

def lengthLine (n : Nat) : List Char := lengthName ++ ':' :: ' ' :: Nat.toDigits 10 n

theorem toList_header (n : Nat) :
    (header n).toList = lengthLine n ++ ['\r', '\n'] ++ ['\r', '\n'] := by
  have hdigits : (toString n).toList = Nat.toDigits 10 n := by
    rw [Nat.toString_eq_ofList_toDigits, String.toList_ofList]
  have hname : (toString "Content-Length: ").toList = lengthName ++ [':', ' '] := by decide
  have hend : (toString "\r\n\r\n").toList = ['\r', '\n', '\r', '\n'] := by decide
  unfold header
  rw [String.toList_append, String.toList_append, hdigits, hname, hend, lengthLine]
  simp only [List.append_assoc, List.cons_append, List.nil_append]

theorem isDigit_bounds {n : Nat} {c : Char} (h : c ∈ Nat.toDigits 10 n) :
    48 ≤ c.toNat ∧ c.toNat ≤ 57 := by
  have hd := Nat.isDigit_of_mem_toDigits (by omega) (by omega) h
  simpa [Char.isDigit, UInt32.le_iff_toNat_le] using hd

theorem ascii_of_mem_lengthLine {n : Nat} {c : Char} (h : c ∈ lengthLine n) :
    c.toNat < 0x80 ∧ c ≠ '\n' ∧ c ≠ '\r' := by
  have hname : lengthName.all fun c => decide (c.toNat < 0x80 ∧ c ≠ '\n' ∧ c ≠ '\r') := by decide
  rw [lengthLine, List.mem_append, List.mem_cons, List.mem_cons] at h
  obtain hc | rfl | rfl | hdigit := h
  · exact of_decide_eq_true (List.all_eq_true.mp hname c hc)
  · decide
  · decide
  · have hd := isDigit_bounds hdigit
    refine ⟨by omega, ?_, ?_⟩ <;> rintro rfl <;> exact absurd hd.1 (by decide)

theorem lineFeed_notMem_encode {cs : List Char} (h : '\n' ∉ cs) : lineFeed ∉ Utf8.encode cs :=
  mt (Utf8.mem_encode_iff (c := '\n') (by decide)).mp h

theorem lineText_encode {cs : List Char} (h : ∀ c ∈ cs, c ≠ '\n' ∧ c ≠ '\r') :
    lineText (Utf8.encode (cs ++ ['\r', '\n'])) = .ok cs := by
  have hkeep : ∀ hl : 0 < cs.reverse.length,
      ¬ (cs.reverse[0] == '\r' || cs.reverse[0] == '\n') = true := by
    intro hl
    obtain ⟨hfeed, hreturn⟩ := h _ (List.mem_reverse.mp (List.getElem_mem hl))
    rw [beq_false_of_ne hfeed, beq_false_of_ne hreturn]
    decide
  rw [lineText, Utf8.split_encode]
  dsimp only
  rw [List.reverse_append, List.dropWhile_append_of_pos (List.all_eq_true.mp (by decide)),
    List.dropWhile_eq_self_iff.mpr hkeep, List.reverse_reverse]

/-- A header line names what stands before its first colon. -/
theorem headerLength_of_colon {name value : List Char} (known : Option Nat) (h : ':' ∉ name) :
    headerLength known (name ++ ':' :: value) =
      if (Text.trim name).map Char.toLower = contentLength then
        match Numeral.read64? (Text.trim value) with
        | some n => .ok (some n)
        | none => .error (.invalidLength (String.ofList (Text.trim value)))
      else .ok known := by
  have hall : ∀ c ∈ name, (c != ':') = true := fun c hc => bne_iff_ne.mpr fun heq => h (heq ▸ hc)
  have hcolon : (name ++ ':' :: value).contains ':' = true := by simp
  have hname : (name ++ ':' :: value).takeWhile (· != ':') = name := by
    rw [List.takeWhile_append_of_pos hall, List.takeWhile_cons_of_neg (by simp), List.append_nil]
  have hvalue : ((name ++ ':' :: value).dropWhile (· != ':')).drop 1 = value := by
    rw [List.dropWhile_append_of_pos hall, List.dropWhile_cons_of_neg (by simp), List.drop_one,
      List.tail_cons]
  cases hread : Numeral.read64? (Text.trim value) <;>
    simp only [headerLength, if_pos hcolon, hname, hvalue, hread]

theorem headerLength_lengthLine {n : Nat} (h : n ≤ Numeral.maxU64) (known : Option Nat) :
    headerLength known (lengthLine n) = .ok (some n) := by
  have hname : (Text.trim lengthName).map Char.toLower = contentLength := by decide
  have hvalue : Text.trim (' ' :: Nat.toDigits 10 n) = Nat.toDigits 10 n := by
    rw [Text.trim, Text.trimLeft, List.dropWhile_cons_of_pos (by decide)]
    exact Text.trim_toDigits n
  rw [lengthLine, headerLength_of_colon known (by decide), if_pos hname, hvalue,
    Numeral.read64?_toDigits h]

/-! ## One frame -/

theorem encode_line (cs : List Char) :
    Utf8.encode (cs ++ ['\r', '\n']) = Utf8.encode (cs ++ ['\r']) ++ [lineFeed] := by
  rw [Utf8.encode_append, Utf8.encode_append, List.append_assoc]
  rfl

theorem cutLine_encode {cs : List Char} (h : ∀ c ∈ cs, c.toNat < 0x80 ∧ c ≠ '\n' ∧ c ≠ '\r')
    (rest : List UInt8) : cutLine [] (Utf8.encode (cs ++ ['\r', '\n']) ++ rest) =
      some (Utf8.encode (cs ++ ['\r']), rest) := by
  have hfree : lineFeed ∉ Utf8.encode (cs ++ ['\r']) := by
    refine lineFeed_notMem_encode fun hmem => ?_
    obtain hmem | hmem := List.mem_append.mp hmem
    · exact (h '\n' hmem).2.1 rfl
    · exact absurd (List.mem_singleton.mp hmem) (by decide)
  rw [encode_line, List.append_assoc, List.singleton_append, cutLine_line hfree]
  rfl

theorem scanLines_header {cs : List Char} {known : Option Nat}
    (h : ∀ c ∈ cs, c.toNat < 0x80 ∧ c ≠ '\n' ∧ c ≠ '\r') (hcs : cs ≠ [])
    (hlength : headerLength length cs = .ok known) (rest : List UInt8) :
    scanLines limit closed inHeader length (Utf8.encode (cs ++ ['\r', '\n']) ++ rest) =
      scanLines limit closed true known rest := by
  rw [scanLines_of_cut (cutLine_encode h rest), ← encode_line,
    lineText_encode fun c hc => (h c hc).2]
  cases cs with
  | nil => exact absurd rfl hcs
  | cons c cs =>
    dsimp only
    rw [hlength]

theorem scanLines_blank (rest : List UInt8) :
    scanLines limit closed true length (Utf8.encode ['\r', '\n'] ++ rest) =
      scanBody limit closed length rest := by
  have hcut := cutLine_encode (fun _ hc => absurd hc List.not_mem_nil) rest
  have htext := lineText_encode fun _ hc => absurd hc List.not_mem_nil
  rw [List.nil_append] at hcut htext
  rw [scanLines_of_cut hcut, ← encode_line, List.nil_append, htext]
  rfl

theorem scan_header {n : Nat} (h : n ≤ Numeral.maxU64) (rest : List UInt8) :
    scan limit closed (Utf8.encode (header n).toList ++ rest) =
      scanBody limit closed (some n) rest := by
  have hne : lengthLine n ≠ [] := List.append_ne_nil_of_left_ne_nil (by decide) _
  rw [scan, toList_header, Utf8.encode_append, List.append_assoc,
    scanLines_header (fun _ hc => ascii_of_mem_lengthLine hc) hne (headerLength_lengthLine h none),
    scanLines_blank]

/-- A written frame is found, and nothing beyond it is touched. -/
theorem scan_write {body : List UInt8} (h : body.length ≤ limit) (hlimit : limit ≤ Numeral.maxU64)
    (rest : List UInt8) : scan limit closed (write body ++ rest) = .frame body rest := by
  have harrived : body.length ≤ (body ++ rest).length := by
    rw [List.length_append]
    omega
  rw [write, List.append_assoc, scan_header (h.trans hlimit), scanBody, if_neg (by omega),
    if_pos harrived, List.take_left, List.drop_left]

/-! ## Frame after frame -/

theorem scan_append (h : scan limit false bytes ≠ .waiting) (more : List UInt8) :
    scan limit closed (bytes ++ more) = (scan limit false bytes).extend more :=
  scanLines_append h more

theorem scan_nil : scan limit true [] = .ended := by
  rw [scan, scanLines]
  rfl

theorem scan_nil_of_open : scan limit false [] = .waiting := scanLines_of_none rfl

theorem length_le_of_scanBody (h : scanBody limit closed length bytes = .frame body rest) :
    rest.length ≤ bytes.length := by
  unfold scanBody at h
  split at h
  · cases h
  · split_ifs at h
    obtain ⟨-, rfl⟩ := Scan.frame.inj h
    rw [List.length_drop]
    omega

theorem scanBody_ne_waiting : scanBody limit true length bytes ≠ .waiting := by
  unfold scanBody
  split
  · exact Scan.noConfusion
  · rw [if_pos rfl]
    split_ifs <;> exact Scan.noConfusion

theorem length_lt_of_scan (h : scan limit closed bytes = .frame body rest) :
    rest.length < bytes.length := by
  unfold scan at h
  generalize false = inHeader, none = length at h
  fun_induction scanLines limit closed inHeader length bytes with
  | case2 length bytes line later hcut hlt => exact (length_le_of_scanBody h).trans_lt hlt
  | case3 inHeader length bytes line later hcut hlt htext hblank ih => exact (ih h).trans hlt
  | case5 inHeader known bytes line later hcut hlt header hne htext length hlength ih =>
    exact (ih h).trans hlt
  | case10 length bytes hcut hclosed hne =>
    rw [List.isEmpty_iff] at hne
    exact (length_le_of_scanBody h).trans_lt (List.length_pos_iff.mpr hne)
  | _ => cases h

/-- Once the input has ended nothing is left open. -/
theorem scan_ne_waiting : scan limit true bytes ≠ .waiting := by
  unfold scan
  generalize false = inHeader, none = length
  fun_induction scanLines limit true inHeader length bytes with
  | case2 length bytes line later => exact scanBody_ne_waiting
  | case3 inHeader length bytes line later hcut hlt htext hblank ih => exact ih
  | case5 inHeader known bytes line later hcut hlt header hne htext length hlength ih => exact ih
  | case6 inHeader length bytes hcut hclosed => cases hclosed
  | case10 length => exact scanBody_ne_waiting
  | _ => exact Scan.noConfusion

theorem length_lt_write (body : List UInt8) : 0 < (write body).length := by
  have hblank : (Utf8.encode ['\r', '\n']).length = 2 := by decide
  rw [write, toList_header, Utf8.encode_append, List.length_append, List.length_append, hblank]
  omega

theorem length_le_flatMap_write (bodies : List (List UInt8)) :
    bodies.length ≤ (bodies.flatMap write).length := by
  induction bodies with
  | nil => exact Nat.zero_le _
  | cons body bodies ih =>
    have hpos := length_lt_write body
    rw [List.flatMap_cons, List.length_append, List.length_cons]
    omega

/-- The first part of a stream of frames either leaves open what it begins with, in which case there
is more to come or nothing at all, or is at its end, or begins with the first frame. -/
theorem scan_part (hlimit : limit ≤ Numeral.maxU64) {bodies : List (List UInt8)}
    (h : ∀ body ∈ bodies, body.length ≤ limit) {input more : List UInt8}
    (hall : input ++ more = bodies.flatMap write) (hclosed : closed = true → more = []) :
    (scan limit closed input = .waiting ∧ (more = [] → bodies = [])) ∨
    (scan limit closed input = .ended ∧ bodies = []) ∨
    ∃ body rest later, scan limit closed input = .frame body rest ∧ input = write body ++ rest ∧
      bodies = body :: later := by
  cases bodies with
  | nil =>
    obtain ⟨rfl, rfl⟩ := List.append_eq_nil_iff.mp hall
    cases closed with
    | true => exact .inr (.inl ⟨scan_nil, rfl⟩)
    | false => exact .inl ⟨scan_nil_of_open, fun _ => rfl⟩
  | cons body later =>
    have hbody := h body List.mem_cons_self
    rw [List.flatMap_cons] at hall
    by_cases hmore : more = []
    · rw [hmore, List.append_nil] at hall
      exact .inr (.inr ⟨body, _, later, hall ▸ scan_write hbody hlimit _, hall, rfl⟩)
    · have hopen : closed = false := by
        rw [← Bool.not_eq_true]
        exact fun hc => hmore (hclosed hc)
      subst hopen
      by_cases hwaits : scan limit false input = .waiting
      · exact .inl ⟨hwaits, fun hnone => absurd hnone hmore⟩
      · have hwhole : scan limit false (input ++ more) = (scan limit false input).extend more :=
          scan_append hwaits more
        rw [hall, scan_write hbody hlimit] at hwhole
        cases hscan : scan limit false input with
        | frame read rest =>
          rw [hscan, Scan.extend] at hwhole
          obtain ⟨rfl, hrest⟩ := Scan.frame.inj hwhole
          refine .inr (.inr ⟨body, rest, later, rfl, ?_, rfl⟩)
          rw [hrest, ← List.append_assoc] at hall
          exact List.append_cancel_right hall
        | _ =>
          rw [hscan] at hwhole
          cases hwhole

/-- Fuel for as many frames as there are bytes is enough. -/
theorem framesWithin_of_lt {fuel : Nat} (h : bytes.length < fuel) :
    framesWithin limit fuel bytes = frames limit bytes := by
  suffices hany : ∀ n, bytes.length < n → framesWithin limit fuel bytes = framesWithin limit n bytes
    from hany _ (Nat.lt_succ_self _)
  intro n hn
  induction fuel generalizing bytes n with
  | zero => cases h
  | succ fuel ih =>
    obtain ⟨n, rfl⟩ := Nat.exists_eq_add_one_of_ne_zero (Nat.ne_zero_of_lt hn)
    rw [framesWithin, framesWithin]
    cases hscan : scan limit true bytes with
    | frame body rest =>
      have hlt := length_lt_of_scan hscan
      dsimp only
      rw [ih (by omega) n (by omega)]
    | flawed _ | ended | waiting => rfl

/-- The frames of an input are the frame it begins with and those of the rest. -/
theorem frames_eq (limit : Nat) (bytes : List UInt8) : frames limit bytes =
    match scan limit true bytes with
    | .frame body rest => (body :: (frames limit rest).1, (frames limit rest).2)
    | .flawed f => ([], .flawed f)
    | .ended | .waiting => ([], .clean) := by
  rw [frames, framesWithin]
  cases hscan : scan limit true bytes with
  | frame body rest =>
    dsimp only
    rw [framesWithin_of_lt (length_lt_of_scan hscan)]
  | flawed _ | ended | waiting => rfl

theorem framesWithin_flatMap_write (hlimit : limit ≤ Numeral.maxU64) {bodies : List (List UInt8)}
    (h : ∀ body ∈ bodies, body.length ≤ limit) {fuel : Nat} (hfuel : bodies.length < fuel) :
    framesWithin limit fuel (bodies.flatMap write) = (bodies, .clean) := by
  induction bodies generalizing fuel with
  | nil =>
    obtain ⟨fuel, rfl⟩ := Nat.exists_eq_add_one_of_ne_zero (Nat.ne_zero_of_lt hfuel)
    rw [framesWithin, List.flatMap_nil, scan_nil]
  | cons body bodies ih =>
    obtain ⟨fuel, rfl⟩ := Nat.exists_eq_add_one_of_ne_zero (Nat.ne_zero_of_lt hfuel)
    rw [framesWithin, List.flatMap_cons, scan_write (h _ List.mem_cons_self) hlimit]
    dsimp only
    rw [ih (fun b hb => h b (List.mem_cons_of_mem _ hb)) (Nat.lt_of_succ_lt_succ hfuel)]

/-! ## Any split of the input -/

variable {held : List UInt8} {coming : List (List UInt8)} {i : Input}

/-- What a call reads is what a look at the whole input shows, in whatever pieces it comes. -/
theorem readMessage_eq (limit : Nat) (held : List UInt8) (coming : List (List UInt8)) :
    match scan limit true (held ++ coming.flatten) with
    | .frame body rest =>
      ∃ later, readMessage limit held coming = (.body body, later) ∧ later.whole = rest
    | .flawed f => ∃ later, readMessage limit held coming = (.flawed f, later)
    | .ended | .waiting => readMessage limit held coming = (.ended, ⟨[], []⟩) := by
  induction coming generalizing held with
  | nil =>
    rw [List.flatten_nil, List.append_nil, readMessage]
    cases scan limit true held with
    | frame body rest => exact ⟨⟨rest, []⟩, rfl, List.append_nil rest⟩
    | flawed f => exact ⟨⟨held, []⟩, rfl⟩
    | ended | waiting => rfl
  | cons piece coming ih =>
    rw [List.flatten_cons, readMessage]
    cases hscan : scan limit false held with
    | frame body rest =>
      rw [scan_append (by rw [hscan]; exact Scan.noConfusion), hscan]
      exact ⟨⟨rest, piece :: coming⟩, rfl, rfl⟩
    | flawed f =>
      rw [scan_append (by rw [hscan]; exact Scan.noConfusion), hscan]
      exact ⟨⟨held, piece :: coming⟩, rfl⟩
    | ended | waiting =>
      rw [← List.append_assoc]
      exact ih (held ++ piece)

theorem readMessage_of_frame
    (h : scan limit true (held ++ coming.flatten) = .frame body rest) :
    ∃ i, readMessage limit held coming = (.body body, i) ∧ i.whole = rest := by
  have hread := readMessage_eq limit held coming
  rw [h] at hread
  exact hread

theorem readMessage_of_nil (h : held ++ coming.flatten = []) :
    readMessage limit held coming = (.ended, ⟨[], []⟩) := by
  have hread := readMessage_eq limit held coming
  rw [h, scan_nil] at hread
  exact hread

theorem reads_of_nil (h : i.whole = []) (n : Nat) :
    reads limit n i = List.replicate n .ended := by
  induction n generalizing i with
  | zero => rfl
  | succ n ih =>
    rw [reads, readMessage_of_nil h, List.replicate_succ]
    dsimp only
    rw [ih rfl]

theorem reads_of_write (hlimit : limit ≤ Numeral.maxU64) {bodies : List (List UInt8)}
    (h : ∀ body ∈ bodies, body.length ≤ limit) (hi : i.whole = bodies.flatMap write) (n : Nat) :
    reads limit (bodies.length + n) i = bodies.map .body ++ List.replicate n .ended := by
  induction bodies generalizing i with
  | nil =>
    rw [List.length_nil, Nat.zero_add, reads_of_nil hi]
    rfl
  | cons body bodies ih =>
    have hscan : scan limit true i.whole = .frame body (bodies.flatMap write) := by
      rw [hi, List.flatMap_cons]
      exact scan_write (h _ List.mem_cons_self) hlimit _
    obtain ⟨i', hread, hi'⟩ := readMessage_of_frame hscan
    rw [List.length_cons, Nat.add_right_comm, reads, hread]
    dsimp only
    rw [ih (fun b hb => h b (List.mem_cons_of_mem _ hb)) hi']
    rfl

end Framing

/-! ## What the bridge writes -/

namespace Outbound

def Move.message? : Move → Option Message
  | .send _ m => some m
  | .write => none

/-- The messages put into the queue, in that order, whichever handle they came by. -/
def sent (moves : List Move) : List Message := moves.filterMap Move.message?

end Outbound

namespace Framing

theorem encode_frameText (s : String) :
    Utf8.encode (frameText s).toList = write (Utf8.encode s.toList) := by
  have hsize : s.utf8ByteSize = (Utf8.encode s.toList).length := by
    rw [String.utf8ByteSize, ← String.utf8Encode_toList, List.utf8Encode, List.size_toByteArray]
    rfl
  rw [frameText, String.toList_append, Utf8.encode_append, write, hsize]

/-- Of these messages the first have been written, each as a whole frame, and the others wait in
their order. -/
def Carries (ms : List Message) (o : Outbound) : Prop :=
  ∃ done, ms = done ++ o.queue ∧ o.written = (done.map Message.bytes).flatMap write

theorem Carries.move {ms : List Message} {o : Outbound} (h : Carries ms o)
    (move : Outbound.Move) : Carries (ms ++ move.message?.toList) (o.move move) := by
  obtain ⟨done, hsent, hwritten⟩ := h
  cases move with
  | send handle m => exact ⟨done, by rw [hsent]; exact List.append_assoc .., hwritten⟩
  | write =>
    rw [Outbound.Move.message?, Option.toList_none, List.append_nil, Outbound.move]
    cases hqueue : o.queue with
    | nil => exact ⟨done, hsent, hwritten⟩
    | cons m queue =>
      refine ⟨done ++ [m], by rw [hsent, hqueue, List.append_cons], ?_⟩
      dsimp only
      rw [hwritten, encode_frameText, List.map_append, List.flatMap_append, List.map_singleton,
        List.flatMap_singleton, Message.bytes]

theorem carries_run (moves : List Outbound.Move) :
    Carries (Outbound.sent moves) (Outbound.run moves) := by
  induction moves using List.reverseRecOn with
  | nil => exact ⟨[], rfl, rfl⟩
  | append_singleton moves move ih =>
    have hsent : Outbound.sent (moves ++ [move]) =
        Outbound.sent moves ++ move.message?.toList := by
      rw [Outbound.sent, Outbound.sent, List.filterMap_append]
      cases move <;> rfl
    rw [hsent, Outbound.run, List.foldl_append]
    exact ih.move move

theorem queue_writes (moves : List Outbound.Move) (n : Nat) :
    (Outbound.run (moves ++ List.replicate n .write)).queue = (Outbound.run moves).queue.drop n := by
  induction n with
  | zero => rw [List.replicate_zero, List.append_nil, List.drop_zero]
  | succ n ih =>
    have hstep (o : Outbound) : (o.move .write).queue = o.queue.tail := by
      cases hqueue : o.queue <;> simp [Outbound.move, hqueue]
    rw [List.replicate_succ', ← List.append_assoc, Outbound.run, List.foldl_append]
    change ((Outbound.run (moves ++ List.replicate n .write)).move .write).queue = _
    rw [hstep, ih, List.tail_drop]

theorem sent_writes (moves : List Outbound.Move) (n : Nat) :
    Outbound.sent (moves ++ List.replicate n .write) = Outbound.sent moves := by
  have hnone : (List.replicate n Outbound.Move.write).filterMap Outbound.Move.message? = [] := by
    simp [Outbound.Move.message?]
  rw [Outbound.sent, List.filterMap_append, hnone, List.append_nil, Outbound.sent]

theorem reads_of_messages (hlimit : limit ≤ Numeral.maxU64) {ms : List Message} {i : Input}
    (hsize : ∀ m ∈ ms, m.bytes.length ≤ limit)
    (hwhole : i.whole = (ms.map Message.bytes).flatMap write) (n : Nat) :
    reads limit (ms.length + n) i = ms.map (.body ·.bytes) ++ List.replicate n .ended := by
  have hreads := reads_of_write hlimit (List.forall_mem_map.mpr hsize) hwhole n
  rw [List.length_map, List.map_map] at hreads
  exact hreads

/-- Bodies that were written one after another, whatever they contain, are read back one by one,
and then the end; it makes no difference in which pieces the bytes come in. So is what the bridge
writes: the messages that its handles have sent, each once, in the order of sending, and after as
many writes as there are messages waiting all of them. The limit on a body is a 64-bit length. -/
theorem frames_round_trip {limit : Nat} (hlimit : limit ≤ Numeral.maxU64) :
    (∀ (bodies : List (List UInt8)) (i : Input), (∀ body ∈ bodies, body.length ≤ limit) →
      i.whole = bodies.flatMap write →
        frames limit i.whole = (bodies, .clean) ∧
        ∀ n, reads limit (bodies.length + n) i =
          bodies.map .body ++ List.replicate n .ended) ∧
    ∀ moves : List Outbound.Move,
      let o := Outbound.run moves
      let drained := Outbound.run (moves ++ List.replicate o.queue.length .write)
      (∃ done : List Message, Outbound.sent moves = done ++ o.queue ∧
        ∀ i : Input, (∀ m ∈ done, m.bytes.length ≤ limit) → i.whole = o.written →
          ∀ n, reads limit (done.length + n) i =
            done.map (.body ·.bytes) ++ List.replicate n .ended) ∧
      drained.queue = [] ∧
      ∀ i : Input, (∀ m ∈ Outbound.sent moves, m.bytes.length ≤ limit) →
        i.whole = drained.written → ∀ n, reads limit ((Outbound.sent moves).length + n) i =
          (Outbound.sent moves).map (.body ·.bytes) ++ List.replicate n .ended := by
  refine ⟨fun bodies i hsize hwhole => ⟨?_, reads_of_write hlimit hsize hwhole⟩, fun moves => ?_⟩
  · rw [hwhole]
    exact framesWithin_flatMap_write hlimit hsize
      (Nat.lt_succ_of_le (length_le_flatMap_write bodies))
  · intro o drained
    have hdrained : drained.queue = [] := by
      rw [queue_writes, List.drop_length]
    obtain ⟨done, hsent, hwritten⟩ := carries_run moves
    obtain ⟨all, hall, hdone⟩ := carries_run (moves ++ List.replicate o.queue.length .write)
    rw [sent_writes, hdrained, List.append_nil] at hall
    refine ⟨⟨done, hsent, fun i hsize hwhole => ?_⟩, hdrained, fun i hsize hwhole => ?_⟩
    · exact reads_of_messages hlimit hsize (hwhole.trans hwritten)
    · rw [hall] at hsize ⊢
      exact reads_of_messages hlimit hsize (hwhole.trans hdone)

/-- Bodies that look like frames, an empty one and bytes that are no text, read byte by byte; and
messages of two handles, of which one has been written before the others are sent. -/
theorem frames_round_trip_lookalikes :
    let bodies := [write [], [], [0xFF, lineFeed, 13, lineFeed], write (write [])]
    let i : Input := ⟨[], (bodies.flatMap write).map ([·])⟩
    let note (method : String) : Message := .notification ⟨"2.0", method, none⟩
    let moves : List Outbound.Move :=
      [.send 0 (note "a"), .write, .send 1 (note "Content-Length: 2\r\n\r\n"), .send 0 (note "b")]
    let o := Outbound.run (moves ++ [.write, .write])
    reads 64 (4 + 2) i = bodies.map .body ++ [.ended, .ended] ∧
      o.queue = [] ∧
      reads 64 (3 + 1) ⟨[], o.written.map ([·])⟩ = [.body (note "a").bytes,
        .body (note "Content-Length: 2\r\n\r\n").bytes, .body (note "b").bytes, .ended] := by
  intro bodies i note moves o
  have hsize : ∀ body ∈ bodies, body.length ≤ 64 := by decide
  have hwhole : i.whole = bodies.flatMap write := by decide
  have htrip := frames_round_trip (show 64 ≤ Numeral.maxU64 by decide)
  obtain ⟨-, hqueue, hreads⟩ := htrip.2 moves
  have hsent : ∀ m ∈ Outbound.sent moves, m.bytes.length ≤ 64 := by decide +kernel
  refine ⟨(htrip.1 bodies i hsize hwhole).2 2, hqueue, hreads _ hsent ?_ 1⟩
  rw [Input.whole, List.nil_append, ← List.flatMap_def, List.flatMap_singleton']
  rfl

end Framing

end ShipBridge.Editor
