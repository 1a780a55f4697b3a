import ShipBridge.Proofs.EventStream.Decoder

/-!
# A body block by block

A body is cut into lines at line feeds, carriage returns and pairs of both. The lines up to a blank
one form a block. What a block is decoded to depends on its own lines and on one thing that earlier
blocks leave behind, the id in force: an id line replaces it, and a block without one passes on the
id that it has found.
-/

namespace ShipBridge.EventStream

/-- The lines of a text that have ended, `part` being the beginning of the first one, last character
first. A carriage return that ends the text has not ended a line yet. -/
def endedLines (part : List Char) : List Char → List (List Char)
  | [] => []
  | ['\r'] => []
  | '\r' :: '\n' :: cs => part.reverse :: endedLines [] cs
  | '\r' :: c :: cs => part.reverse :: endedLines [] (c :: cs)
  | '\n' :: cs => part.reverse :: endedLines [] cs
  | c :: cs => endedLines (c :: part) cs

/-- The draft after some lines, and the events that they complete. -/
def Draft.run (d : Draft) : List (List Char) → Draft × List Event
  | [] => (d, [])
  | l :: ls => (((d.line l).1.run ls).1, (d.line l).2.toList ++ ((d.line l).1.run ls).2)

theorem Draft.run_append (d : Draft) (ls ms : List (List Char)) :
    d.run (ls ++ ms) = (((d.run ls).1.run ms).1, (d.run ls).2 ++ ((d.run ls).1.run ms).2) := by
  induction ls generalizing d with
  | nil => rfl
  | cons l ls ih => simp [Draft.run, ih]

theorem Lines.feed_return (d : Draft) (part : List Char) :
    Lines.feed { draft := d, unfinished := part } '\r'
      = ({ draft := d, unfinished := part, afterReturn := true }, none) := rfl

theorem Lines.feed_lineFeed (d : Draft) (part : List Char) (afterReturn : Bool) :
    Lines.feed { draft := d, unfinished := part, afterReturn } '\n'
      = ({ draft := (d.line part.reverse).1 }, (d.line part.reverse).2) := by
  cases afterReturn <;> rfl

theorem Lines.feed_inner (d : Draft) (part : List Char) {c : Char} (hn : c ≠ '\n')
    (hr : c ≠ '\r') : Lines.feed { draft := d, unfinished := part } c
      = ({ draft := d, unfinished := c :: part }, none) := by
  simp [Lines.feed, Lines.character, hn, hr]

/-- After a carriage return any character but a line feed begins the next line. -/
theorem Lines.feed_afterReturn (d : Draft) (part : List Char) {c : Char} (hn : c ≠ '\n') :
    Lines.feed { draft := d, unfinished := part, afterReturn := true } c
      = ((Lines.feed { draft := (d.line part.reverse).1 } c).1, (d.line part.reverse).2) ∧
    (Lines.feed { draft := (d.line part.reverse).1 } c).2 = none := by
  by_cases hr : c = '\r'
  · subst hr
    exact ⟨rfl, rfl⟩
  · simp [Lines.feed, Lines.character, Lines.endLine, hn, hr]

/-- The decoder makes of a text what the draft makes of its lines. -/
theorem Lines.run_endedLines (d : Draft) (part cs : List Char) :
    (Lines.run { draft := d, unfinished := part } cs).2 = (d.run (endedLines part cs)).2 := by
  induction part, cs using endedLines.induct generalizing d with
  | case1 part => rfl
  | case2 part => rfl
  | case3 part cs ih =>
    rw [endedLines, Lines.run, Lines.feed_return, Lines.run, Lines.feed_lineFeed, ih, Draft.run]
    rfl
  | case4 part c cs hn ih =>
    obtain ⟨hfeed, hnone⟩ := Lines.feed_afterReturn d part hn
    have hnext := ih (d.line part.reverse).1
    rw [Lines.run, hnone] at hnext
    rw [endedLines, Lines.run, Lines.feed_return, Lines.run, hfeed, Draft.run, ← hnext]
    · rfl
    · exact hn
  | case5 part cs ih =>
    rw [endedLines, Lines.run, Lines.feed_lineFeed, ih, Draft.run]
  | case6 part c cs h₁ _ h₃ hn ih =>
    have hr : c ≠ '\r' := by
      rintro rfl
      cases cs with
      | nil => exact h₁ rfl rfl
      | cons e es => exact h₃ e es rfl rfl
    have hlines : endedLines part (c :: cs) = endedLines (c :: part) cs := by
      rw [endedLines]
      · exact fun h => absurd h hr
      · exact fun _ h => absurd h hr
      · exact fun _ _ h => absurd h hr
      · exact hn
    rw [hlines, Lines.run, Lines.feed_inner d part hn hr, ← ih]
    rfl

/-! ## Blocks -/

def value? (name : String) (line : List Char) : Option (List Char) :=
  if (splitField line).1 = name.toList then some (splitField line).2 else none

def values (name : String) (ls : List (List Char)) : List (List Char) := ls.filterMap (value? name)

/-- The id that some lines bring: that of the last id line, lines with a null character not
counted. -/
def lastId? (ls : List (List Char)) : Option (List Char) :=
  ((values "id" ls).filter fun v => !v.contains '\x00').getLast?

theorem values_cons_self {name : String} {l : List Char} (h : (splitField l).1 = name.toList)
    (ls : List (List Char)) : values name (l :: ls) = (splitField l).2 :: values name ls :=
  List.filterMap_cons_some (if_pos h)

theorem values_cons_of_ne {name : String} {l : List Char} (h : (splitField l).1 ≠ name.toList)
    (ls : List (List Char)) : values name (l :: ls) = values name ls :=
  List.filterMap_cons_none (if_neg h)

theorem Draft.line_of_ne_nil (d : Draft) {l : List Char} (h : l ≠ []) :
    d.line l = (d.field (splitField l).1 (splitField l).2, none) := by
  unfold Draft.line
  split
  · exact absurd rfl h
  · rfl
  · rfl

theorem Draft.event_eq (d : Draft) : d.event = {
    id := nonempty? d.id
    kind := some ((nonempty? d.kind).getD "message")
    data := String.ofList d.data.dropLast } := by
  unfold Draft.event nonempty?
  cases d.kind <;> rfl

/-- What the lines of a block make of a draft. -/
def Draft.gather (d : Draft) (ls : List (List Char)) : Draft where
  id := (lastId? ls).getD d.id
  kind := (values "event" ls).getLast?.getD d.kind
  data := d.data ++ (values "data" ls).flatMap (· ++ ['\n'])

theorem Draft.gather_cons (d : Draft) (l : List Char) (ls : List (List Char)) :
    d.gather (l :: ls) = (d.field (splitField l).1 (splitField l).2).gather ls := by
  unfold Draft.field
  split_ifs with hdata hevent hid hnull
  · have hevent : (splitField l).1 ≠ "event".toList := by rw [hdata]; decide
    have hid : (splitField l).1 ≠ "id".toList := by rw [hdata]; decide
    simp only [Draft.gather, lastId?, values_cons_self hdata, values_cons_of_ne hevent,
      values_cons_of_ne hid, List.flatMap_cons, List.append_assoc]
  · have hid : (splitField l).1 ≠ "id".toList := by rw [hevent]; decide
    simp only [Draft.gather, lastId?, values_cons_of_ne hdata, values_cons_self hevent,
      values_cons_of_ne hid, List.getLast?_cons, Option.getD_some]
  · simp only [Draft.gather, lastId?, values_cons_of_ne hdata, values_cons_of_ne hevent,
      values_cons_self hid, List.filter_cons, hnull, Bool.not_true, Bool.false_eq_true, if_false]
  · have hkeep : (!(splitField l).2.contains '\x00') = true := by simpa using hnull
    simp only [Draft.gather, lastId?, values_cons_of_ne hdata, values_cons_of_ne hevent,
      values_cons_self hid, List.filter_cons, hkeep, if_true, List.getLast?_cons, Option.getD_some]
  · simp only [Draft.gather, lastId?, values_cons_of_ne hdata, values_cons_of_ne hevent,
      values_cons_of_ne hid]

theorem Draft.run_gather (d : Draft) {ls : List (List Char)} (h : ∀ l ∈ ls, l ≠ []) :
    d.run ls = (d.gather ls, []) := by
  induction ls generalizing d with
  | nil => simp [Draft.run, Draft.gather, lastId?, values]
  | cons l ls ih =>
    rw [Draft.run, Draft.line_of_ne_nil d (h l List.mem_cons_self),
      ih _ fun m hm => h m (List.mem_cons_of_mem _ hm), Draft.gather_cons]
    rfl

structure Block where
  lines : List (List Char)
  whole : ∀ l ∈ lines, l ≠ []

namespace Block

/-- The id in force after a block. -/
def idAfter (b : Block) (inForce : List Char) : List Char := (lastId? b.lines).getD inForce

def event? (b : Block) (inForce : List Char) : Option Event :=
  if values "data" b.lines = [] then none
  else some {
    id := nonempty? (b.idAfter inForce)
    kind := some ((nonempty? ((values "event" b.lines).getLast?.getD [])).getD "message")
    data := String.ofList (['\n'].intercalate (values "data" b.lines)) }

/-- A block as it stands in a body, with the blank line that ends it. -/
def ended (b : Block) : List (List Char) := b.lines ++ [[]]

end Block

def idNumber? (id : List Char) : Option Nat :=
  (nonempty? id).bind fun id => Numeral.read64? (Text.trim id.toList)

def blockEvents (inForce : List Char) : List Block → List Event
  | [] => []
  | b :: bs => (b.event? inForce).toList ++ blockEvents (b.idAfter inForce) bs

def inForceAfter (inForce : List Char) (bs : List Block) : List Char :=
  bs.foldl (fun id b => b.idAfter id) inForce

theorem flatMap_lineFeed (vs : List (List Char)) :
    (vs.flatMap (· ++ ['\n'])).dropLast = ['\n'].intercalate vs := by
  induction vs with
  | nil => rfl
  | cons v vs ih =>
    cases vs with
    | nil => simp
    | cons w ws =>
      have hne : (w :: ws).flatMap (· ++ ['\n']) ≠ [] := by simp
      rw [List.flatMap_cons, List.dropLast_append_of_ne_nil hne, ih, List.intercalate_cons_cons]

theorem Draft.run_ended (b : Block) (id : List Char) :
    Draft.run { id } b.ended = ({ id := b.idAfter id }, (b.event? id).toList) := by
  rw [Block.ended, Draft.run_append, Draft.run_gather _ b.whole]
  have hid : (Draft.gather { id } b.lines).id = b.idAfter id := rfl
  have hdata : (Draft.gather { id } b.lines).data = (values "data" b.lines).flatMap (· ++ ['\n']) :=
    List.nil_append _
  have hempty : (Draft.gather { id } b.lines).data.isEmpty = true ↔ values "data" b.lines = [] := by
    rw [hdata, List.isEmpty_iff, List.flatMap_eq_nil_iff, List.eq_nil_iff_forall_not_mem]
    exact ⟨fun h v hv => List.append_ne_nil_of_right_ne_nil v (List.cons_ne_nil _ _) (h v hv),
      fun h v hv => absurd hv (h v)⟩
  have hevent : (if (Draft.gather { id } b.lines).data.isEmpty then none
      else some (Draft.gather { id } b.lines).event) = b.event? id := by
    by_cases h : values "data" b.lines = []
    · rw [if_pos (hempty.mpr h), Block.event?, if_pos h]
    · rw [if_neg (mt hempty.mp h), Block.event?, if_neg h, Draft.event_eq, hid, hdata,
        flatMap_lineFeed]
      rfl
  simp only [Draft.run, Draft.line, hevent, hid, List.nil_append, List.append_nil]

theorem Draft.run_blocks (id : List Char) (bs : List Block) :
    Draft.run { id } (bs.flatMap Block.ended) =
      ({ id := inForceAfter id bs }, blockEvents id bs) := by
  induction bs generalizing id with
  | nil => rfl
  | cons b bs ih =>
    rw [List.flatMap_cons, Draft.run_append, Draft.run_ended, ih, blockEvents]
    rfl

theorem events_of_blocks {cs : List Char} (h : cs.head? ≠ some byteOrderMark) {bs : List Block}
    (hb : endedLines [] cs = bs.flatMap Block.ended) :
    events (Utf8.encode cs) = blockEvents [] bs := by
  rw [events_encode h, Lines.run_endedLines {} [] cs, hb, Draft.run_blocks]

theorem Block.event?_eq_some {b : Block} (h : values "data" b.lines ≠ []) (inForce : List Char) :
    ∃ e, b.event? inForce = some e ∧ e.number? = idNumber? (b.idAfter inForce) ∧
      e.data = String.ofList (['\n'].intercalate (values "data" b.lines)) :=
  ⟨_, if_neg h, rfl, rfl⟩

theorem length_blockEvents {bs : List Block} (h : ∀ b ∈ bs, values "data" b.lines ≠ [])
    (inForce : List Char) : (blockEvents inForce bs).length = bs.length := by
  induction bs generalizing inForce with
  | nil => rfl
  | cons b bs ih =>
    obtain ⟨e, he, -⟩ := Block.event?_eq_some (h b List.mem_cons_self) inForce
    rw [blockEvents, he, List.length_append, ih fun c hc => h c (List.mem_cons_of_mem _ hc)]
    exact Nat.add_comm _ _

theorem blockEvents_append (inForce : List Char) (as bs : List Block) :
    blockEvents inForce (as ++ bs) =
      blockEvents inForce as ++ blockEvents (inForceAfter inForce as) bs := by
  induction as generalizing inForce with
  | nil => rfl
  | cons a as ih =>
    rw [List.cons_append, blockEvents, ih, blockEvents, List.append_assoc]
    rfl

end ShipBridge.EventStream
