import ShipBridge.Proofs.EventStream.Blocks

/-!
# A body however it is cut

A body arrives in chunks, and a cut may fall anywhere: between a carriage return and its line feed,
within a field name, within a character. What the decoder yields is told from the whole body alone.
Its bytes are decoded as far as they are text, the text is split into the lines that have ended,
the lines into blocks, and each block gives the event that its own lines and the id in force make
of it. Bytes that are left undecoded give one fault at the end.
-/

namespace ShipBridge.EventStream

/-! ## Blocks of lines -/

def Block.empty : Block := ⟨[], by simp⟩

/-- A block with one more line, which begins with `c`. -/
def Block.push (b : Block) (c : Char) (cs : List Char) : Block where
  lines := b.lines ++ [c :: cs]
  whole l hl := by
    rcases List.mem_append.mp hl with hl | hl
    · exact b.whole l hl
    · rw [List.mem_singleton.mp hl]
      exact List.cons_ne_nil c cs

/-- The blocks of some lines, the first of which goes on with the lines of `part`. Lines that no
blank line follows are no block. -/
def blocksFrom (part : Block) : List (List Char) → List Block
  | [] => []
  | [] :: ls => part :: blocksFrom .empty ls
  | (c :: cs) :: ls => blocksFrom (part.push c cs) ls

theorem Draft.line_gather (b : Block) (id : List Char) :
    (Draft.gather { id } b.lines).line [] = ({ id := b.idAfter id }, b.event? id) := by
  have hrun := Draft.run_ended b id
  rw [Block.ended, Draft.run_append, Draft.run_gather _ b.whole] at hrun
  obtain ⟨hdraft, hevents⟩ := Prod.mk.inj hrun
  refine Prod.ext hdraft (Option.ext fun event => ?_)
  have htoList : ((Draft.gather { id } b.lines).line []).2.toList = (b.event? id).toList := by
    simpa [Draft.run] using hevents
  rw [← Option.mem_toList, htoList, Option.mem_toList]

theorem Draft.gather_push (b : Block) (id : List Char) (c : Char) (cs : List Char) :
    (Draft.gather { id } b.lines).line (c :: cs) =
      (Draft.gather { id } (b.push c cs).lines, none) := by
  have hpush := Draft.run_gather { id } (b.push c cs).whole
  rw [Block.push, Draft.run_append, Draft.run_gather _ b.whole] at hpush
  have hnone := Draft.line_of_ne_nil (Draft.gather { id } b.lines) (List.cons_ne_nil c cs)
  refine Prod.ext (Prod.mk.inj hpush).1 ?_
  rw [hnone]

theorem Draft.run_blocksFrom (part : Block) (id : List Char) (ls : List (List Char)) :
    ((Draft.gather { id } part.lines).run ls).2 = blockEvents id (blocksFrom part ls) := by
  induction ls generalizing part id with
  | nil => rfl
  | cons l ls ih =>
    cases l with
    | nil =>
      rw [Draft.run, Draft.line_gather, blocksFrom, blockEvents, ← ih .empty]
      rfl
    | cons c cs =>
      rw [Draft.run, Draft.gather_push, blocksFrom, ← ih]
      rfl

/-! ## Bytes of a whole body -/

def textEvents (cs : List Char) : List Event :=
  blockEvents [] (blocksFrom .empty (endedLines [] cs))

def undecodedFault? (held : List UInt8) : Option Session.Fault :=
  (Utf8.run .boundary held).2.flaw?.map fun flaw => .eventStream ("UTF8 error: " ++ flaw.message 0)

/-- What a body is decoded to, told from all its bytes. -/
def wholeBody (bytes : List UInt8) : List Item :=
  let (text, held) := Utf8.split bytes
  (textEvents text).map .ok ++ ((undecodedFault? held).map .error).toList

theorem run_textEvents (cs : List Char) : (Lines.run {} cs).2 = textEvents cs :=
  (Lines.run_endedLines {} [] cs).trans (Draft.run_blocksFrom .empty [] _)

theorem finish_eq (d : Decoder) {bytes : List UInt8} (h : d.utf8 = (Utf8.run .boundary bytes).2) :
    d.finish = ((undecodedFault? (Utf8.split bytes).2).map .error).toList := by
  rw [Decoder.finish, undecodedFault?, Utf8.run_undecoded, h]
  cases (Utf8.run .boundary bytes).2.flaw? <;> rfl

theorem foldl_chunk (d : Decoder) (items : List Item) (chunks : List (List UInt8)) :
    (chunks.map .bytes).foldl (fun (d, items) chunk =>
      let (d, more) := Decoder.chunk d chunk
      (d, items ++ more)) (d, items) =
    ((d.run chunks.flatten).1, items ++ (d.run chunks.flatten).2.map .ok) := by
  induction chunks generalizing d items with
  | nil => simp [Decoder.run_eq]
  | cons c cs ih =>
    rw [List.map_cons, List.foldl_cons, List.flatten_cons, Decoder.run_append, List.map_append,
      ← List.append_assoc]
    exact ih _ _

theorem head?_ne_of_not_prefix {bytes : List UInt8}
    (h : ¬Utf8.encode [byteOrderMark] <+: bytes) :
    (Utf8.run .boundary bytes).1.head? ≠ some byteOrderMark := by
  intro hhead
  obtain ⟨cs, hcs⟩ := List.head?_eq_some_iff.mp hhead
  refine h ⟨Utf8.encode cs ++ (Utf8.split bytes).2, ?_⟩
  have hsplit : (Utf8.split bytes).1 = [byteOrderMark] ++ cs := hcs
  rw [← List.append_assoc, ← Utf8.encode_append, ← hsplit, Utf8.encode_split]

/-- However a body that does not open with a byte order mark is cut into chunks, some of them
perhaps empty, it is decoded to the events and the fault that its bytes alone determine. -/
theorem decoded_however_cut (bytes : List UInt8) (h : ¬Utf8.encode [byteOrderMark] <+: bytes)
    (chunks : List (List UInt8)) (hcut : chunks.flatten = bytes) :
    decode? (chunks.map .bytes) = some (wholeBody bytes) := by
  have hhead := head?_ne_of_not_prefix h
  obtain ⟨hutf8, hstart, hevents⟩ :=
    Decoder.run_characters (d := {}) bytes (by simp) fun _ => hhead
  unfold decode?
  rw [foldl_chunk, hcut]
  dsimp only
  rw [if_neg hstart, finish_eq _ hutf8, hevents, run_textEvents]
  rfl

/-- Two events and an undecodable tail, cut within a pair of line ends, within a field name and
within a character. -/
theorem decoded_however_cut_midway :
    let chunks : List (List UInt8) :=
      [Utf8.encode "id: 1\r".toList, Utf8.encode "\nda".toList, [],
        Utf8.encode "ta: x\r\n\r\ndata: ".toList ++ [0xC3], [0xA9, 0x0D], [0x0D, 0x61, 0xE2],
        [0x28]]
    let bytes := chunks.flatten
    ¬Utf8.encode [byteOrderMark] <+: bytes ∧ decode? (chunks.map .bytes) = some
      [.ok { id := some "1", kind := some "message", data := "x" },
        .ok { id := some "1", kind := some "message", data := "é" },
        .error (.eventStream "UTF8 error: invalid utf-8 sequence of 1 bytes from index 0")] := by
  intro chunks bytes
  have hmark : ¬Utf8.encode [byteOrderMark] <+: bytes := by decide +kernel
  exact ⟨hmark, (decoded_however_cut bytes hmark chunks rfl).trans rfl⟩

end ShipBridge.EventStream
