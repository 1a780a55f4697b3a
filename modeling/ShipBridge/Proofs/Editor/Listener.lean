import ShipBridge.Editor.Listener
import ShipBridge.Proofs.Editor.Framing

/-!
# What the listening loop does

For an input as a whole there is a script: the conversation that its frames make up, each turn with
what the loop does for it. In every state the marks that the loop has left, followed by what the
script has for the bytes that are still to be read, are the script of the whole input, in whatever
order the acts take place and in whatever pieces the bytes arrive. So the loop never leaves the
script, and at its end it has done all of it.

It comes to its end because bytes are used up. Once the input is closed nothing is added to those
held, each turn takes some of them away, and a call that has returned is not begun again.
-/

namespace ShipBridge.Editor

open Framing

/-- All that the loop does for one turn. -/
def Turn.marks : Turn → List Mark
  | .unreadable f => [.heard (.unreadable f), .complained (.unreadable f)]
  | .passed => [.heard .passed]
  | t => [.heard t, .called t, .returned t]

/-- Whether the loop leaves this mark, and not the handler. -/
def Mark.isOwn : Mark → Bool
  | .said _ => false
  | _ => true

def own (marks : List Mark) : List Mark := (marks.filter Mark.isOwn).reverse

def Act.bytes : Act → List UInt8
  | .arrives bytes => bytes
  | .closes | .polled | .returns | .speaks _ | .hangsUp => []

def input : List Act → List UInt8
  | [] => []
  | a :: as => if a = .closes then [] else a.bytes ++ input as

def Parting.ofFlaw? : Option Flaw → Parting
  | none => .done
  | some f => .flawed f

/-- What the loop does for a whole input, and how it ends. -/
def script (limit : Nat) (input : List UInt8) : List Mark × Parting :=
  ((conversation limit input).1.flatMap Turn.marks, .ofFlaw? (conversation limit input).2)

namespace Listener

variable {limit : Nat} {l : Listener} {t : Turn} {a : Act} {more : List UInt8}

/-! ## The script, frame by frame -/

def onto (ms : List Mark) (s : List Mark × Parting) : List Mark × Parting := (ms ++ s.1, s.2)

theorem onto_onto (ms ms' : List Mark) (s : List Mark × Parting) :
    onto ms (onto ms' s) = onto (ms ++ ms') s := by
  rw [onto, onto, onto, List.append_assoc]

def followed (t : Turn) (ms : List Mark) (later : List Mark × Parting) : List Mark × Parting :=
  if t.isExit then (ms, .done) else onto ms later

theorem followed_of_stays (h : t.isExit = false) (ms : List Mark) (later : List Mark × Parting) :
    followed t ms later = onto ms later := by
  rw [followed, h, if_neg Bool.false_ne_true]

theorem onto_followed (ms ms' : List Mark) (later : List Mark × Parting) :
    onto ms (followed t ms' later) = followed t (ms ++ ms') later := by
  unfold followed
  split_ifs
  · rfl
  · exact onto_onto ms ms' later

theorem script_eq (limit : Nat) (bytes : List UInt8) : script limit bytes =
    match scan limit true bytes with
    | .frame body rest => followed (.ofBody body) (Turn.ofBody body).marks (script limit rest)
    | .flawed f => ([], .flawed f)
    | .ended | .waiting => ([], .done) := by
  rw [script, conversation, frames_eq]
  cases scan limit true bytes with
  | frame body rest =>
    dsimp only
    rw [List.map_cons, untilExit, List.any_cons, followed]
    cases hexit : (Turn.ofBody body).isExit with
    | true =>
      rw [if_pos rfl, if_pos rfl, Bool.true_or, List.flatMap_singleton]
      cases (frames limit rest).2 <;> rfl
    | false =>
      rw [if_neg Bool.false_ne_true, if_neg Bool.false_ne_true, Bool.false_or, List.flatMap_cons]
      rfl
  | flawed _ | ended | waiting => rfl

/-! ## What is done and what is due -/

theorem own_cons {m : Mark} (h : m.isOwn = true) (ms : List Mark) :
    own (m :: ms) = own ms ++ [m] := by
  rw [own, List.filter_cons_of_pos h, List.reverse_cons]
  rfl

/-- What the script has from here on, if these bytes are still to come. -/
def due (limit : Nat) (more : List UInt8) (l : Listener) : List Mark × Parting :=
  match l.phase with
  | .reading => script limit (l.held ++ more)
  | .calling t => followed t [.returned t] (script limit (l.held ++ more))
  | .stopped p => ([], p)

/-- What the loop has done together with what is due. -/
def whole (limit : Nat) (more : List UInt8) (l : Listener) : List Mark × Parting :=
  onto (own l.marks) (l.due limit more)

theorem whole_take (hgone : l.gone = false) (hphase : l.phase = .reading) :
    (l.take t).whole limit more =
      onto (own l.marks) (followed t t.marks (script limit (l.held ++ more))) := by
  cases t with
  | unreadable f =>
    rw [take, hgone, if_neg Bool.false_ne_true, whole, due, own_cons rfl, own_cons rfl, hphase,
      List.append_assoc, followed_of_stays rfl, onto_onto]
    rfl
  | passed =>
    rw [take, whole, due, own_cons rfl, hphase, followed_of_stays rfl, onto_onto]
    rfl
  | request | notification =>
    rw [take, whole, due, own_cons rfl, own_cons rfl, List.append_assoc, ← onto_onto, onto_followed]
    rfl

/-- What is seen at the front of the bytes held is what the whole input has there. -/
theorem scan_whole (hclosed : l.closed = true → more = [])
    (h : scan limit l.closed l.held ≠ .waiting) :
    scan limit true (l.held ++ more) = (scan limit l.closed l.held).extend more := by
  cases hc : l.closed with
  | false =>
    rw [hc] at h
    exact scan_append h more
  | true =>
    rw [hclosed hc, List.append_nil]
    cases scan limit true l.held with
    | frame body rest => rw [Scan.extend, List.append_nil]
    | flawed _ | ended | waiting => rfl

theorem whole_poll (hgone : l.gone = false) (hclosed : l.closed = true → more = []) :
    (l.poll limit).whole limit more = l.whole limit more := by
  cases hphase : l.phase with
  | calling _ | stopped _ => rw [poll, hphase]
  | reading =>
    rw [poll, hphase]
    by_cases hwaits : scan limit l.closed l.held = .waiting
    · dsimp only
      rw [hwaits]
    · have hscan := scan_whole hclosed hwaits
      have hwhole : l.whole limit more = onto (own l.marks) (script limit (l.held ++ more)) := by
        rw [whole, due, hphase]
      rw [hwhole, script_eq, hscan]
      dsimp only
      cases hheld : scan limit l.closed l.held with
      | frame body rest => exact whole_take hgone rfl
      | flawed _ | ended => rfl
      | waiting => exact absurd hheld hwaits

theorem whole_finish : l.finish.whole limit more = l.whole limit more := by
  cases hphase : l.phase with
  | reading | stopped _ => rw [finish, hphase]
  | calling t =>
    rw [finish, hphase, whole, whole, due, due, hphase, own_cons rfl, ← onto_onto]
    dsimp only
    cases hexit : t.isExit with
    | true =>
      rw [if_pos rfl, followed, hexit, if_pos rfl]
      rfl
    | false => rw [if_neg Bool.false_ne_true, followed_of_stays hexit]

/-! ## Act after act -/

theorem take_ends : (l.take t).closed = l.closed ∧ (l.take t).gone = l.gone := by
  cases t with
  | unreadable f =>
    rw [take]
    split_ifs <;> exact ⟨rfl, rfl⟩
  | passed | request | notification => exact ⟨rfl, rfl⟩

theorem poll_ends : (l.poll limit).closed = l.closed ∧ (l.poll limit).gone = l.gone := by
  unfold poll
  split
  · split
    · exact take_ends
    all_goals exact ⟨rfl, rfl⟩
  · exact ⟨rfl, rfl⟩
  · exact ⟨rfl, rfl⟩

theorem finish_ends : l.finish.closed = l.closed ∧ l.finish.gone = l.gone := by
  unfold finish
  split <;> exact ⟨rfl, rfl⟩

theorem closed_act : (l.act limit a).closed = true ↔ l.closed = true ∨ a = .closes := by
  cases a with
  | arrives bytes | speaks m =>
    rw [act]
    split_ifs <;> simp
  | closes => simp [act]
  | polled => simp [act, poll_ends.1]
  | returns => simp [act, finish_ends.1]
  | hangsUp => simp [act]

theorem gone_act (ha : a ≠ .hangsUp) : (l.act limit a).gone = l.gone := by
  cases a with
  | arrives bytes | speaks m =>
    rw [act]
    split_ifs <;> rfl
  | closes => rfl
  | polled => exact poll_ends.2
  | returns => exact finish_ends.2
  | hangsUp => exact absurd rfl ha

/-- One act leaves the whole as it is: what it brings was still to come, and what the loop then does
was due. -/
theorem whole_act (ha : a ≠ .hangsUp) (hgone : l.gone = false)
    (hclosed : (l.act limit a).closed = true → more = []) :
    (l.act limit a).whole limit more =
      l.whole limit ((if l.closed = true then [] else a.bytes) ++ more) := by
  have hnothing : l.closed = true → more = [] := fun hc => hclosed (closed_act.mpr (.inl hc))
  cases a with
  | arrives bytes =>
    rw [act, Act.bytes]
    split_ifs with hc
    · rfl
    · unfold whole due
      dsimp only
      rw [List.append_assoc]
  | closes =>
    rw [Act.bytes, ite_self]
    rfl
  | speaks m =>
    rw [act, hgone, Act.bytes, ite_self]
    rfl
  | polled =>
    rw [Act.bytes, ite_self]
    exact whole_poll hgone hnothing
  | returns =>
    rw [Act.bytes, ite_self]
    exact whole_finish
  | hangsUp => exact absurd rfl ha

theorem input_append (as bs : List Act) :
    input (as ++ bs) = input as ++ if .closes ∈ as then [] else input bs := by
  induction as with
  | nil => simp [input]
  | cons a as ih =>
    rw [List.cons_append, input, input]
    by_cases ha : a = .closes
    · simp [ha]
    · simp [ha, Ne.symm ha, ih]

theorem run_snoc (limit : Nat) (as : List Act) (a : Act) :
    run limit (as ++ [a]) = (run limit as).act limit a := by
  rw [run, run, List.foldl_append]
  rfl

theorem closed_run {as : List Act} : (run limit as).closed = true ↔ .closes ∈ as := by
  induction as using List.reverseRecOn with
  | nil => simp [run]
  | append_singleton as a ih =>
    rw [run_snoc, closed_act, ih, List.mem_append, List.mem_singleton, eq_comm (a := a)]

theorem gone_run {as : List Act} (h : .hangsUp ∉ as) : (run limit as).gone = false := by
  induction as using List.reverseRecOn with
  | nil => rfl
  | append_singleton as a ih =>
    rw [List.mem_append, List.mem_singleton, not_or] at h
    rw [run_snoc, gone_act (Ne.symm h.2), ih h.1]

theorem whole_run {as : List Act} (h : .hangsUp ∉ as) (hclosed : .closes ∈ as → more = []) :
    (run limit as).whole limit more = script limit (input as ++ more) := by
  induction as using List.reverseRecOn generalizing more with
  | nil => rfl
  | append_singleton as a ih =>
    rw [List.mem_append, List.mem_singleton, not_or] at h
    have hmore : ((run limit as).act limit a).closed = true → more = [] := fun hc =>
      hclosed (closed_run.mp (run_snoc limit as a ▸ hc))
    have hcoming : .closes ∈ as →
        (if (run limit as).closed = true then [] else a.bytes) ++ more = [] := fun hc => by
      rw [if_pos (closed_run.mpr hc), List.nil_append]
      exact hmore (closed_act.mpr (.inl (closed_run.mpr hc)))
    rw [run_snoc, whole_act (Ne.symm h.2) (gone_run h.1) hmore, ih h.1 hcoming, ← List.append_assoc,
      input_append]
    simp only [closed_run, input, List.append_nil]
    cases a <;> rfl

/-! ## Coming to the end -/

/-- An upper bound on the turns and returns that are left once the input is closed. A call comes
right after its turn, so it counts one more than reading on. -/
def rank (l : Listener) : Nat :=
  match l.phase with
  | .reading => 2 * l.held.length + 1
  | .calling _ => 2 * l.held.length + 2
  | .stopped _ => 0

theorem rank_take_le (h : l.phase = .reading) : (l.take t).rank ≤ 2 * l.held.length + 2 := by
  cases t with
  | unreadable f =>
    rw [take]
    split_ifs
    · exact Nat.zero_le _
    · simp only [rank, h]
      omega
  | passed =>
    simp only [take, rank, h]
    omega
  | request | notification => exact le_rfl

theorem rank_poll_lt (hclosed : l.closed = true) (h : l.phase = .reading) :
    (l.poll limit).rank < l.rank := by
  have hrank : l.rank = 2 * l.held.length + 1 := by rw [rank, h]
  rw [poll, h, hclosed, hrank]
  dsimp only
  cases hscan : scan limit true l.held with
  | frame body rest =>
    have hlt := length_lt_of_scan hscan
    refine (rank_take_le rfl).trans_lt ?_
    dsimp only
    omega
  | flawed _ | ended => exact Nat.succ_pos _
  | waiting => exact absurd hscan scan_ne_waiting

theorem rank_finish_lt (h : l.phase = .calling t) : l.finish.rank < l.rank := by
  have hrank : l.rank = 2 * l.held.length + 2 := by rw [rank, h]
  rw [finish, h, hrank]
  dsimp only
  cases t.isExit with
  | true => exact Nat.succ_pos _
  | false => exact Nat.lt_succ_self _

theorem rank_act_le (hclosed : l.closed = true) : (l.act limit a).rank ≤ l.rank := by
  cases a with
  | arrives bytes =>
    rw [act, if_pos hclosed]
  | closes | hangsUp => exact le_rfl
  | speaks m =>
    rw [act]
    split_ifs <;> exact le_rfl
  | polled =>
    cases h : l.phase with
    | reading => exact (rank_poll_lt hclosed h).le
    | calling _ | stopped _ => rw [act, poll, h]
  | returns =>
    cases h : l.phase with
    | calling _ => exact (rank_finish_lt h).le
    | reading | stopped _ => rw [act, finish, h]

theorem stopped_act {p : Parting} (h : l.phase = .stopped p) :
    (l.act limit a).phase = .stopped p := by
  cases a with
  | arrives bytes | speaks m =>
    rw [act]
    split_ifs <;> exact h
  | closes | hangsUp => exact h
  | polled => rw [act, poll, h]; exact h
  | returns => rw [act, finish, h]; exact h

def upTo (as : Nat → Act) (n : Nat) : List Act := (List.range n).map as

variable {as : Nat → Act} {n k : Nat}

theorem upTo_succ (as : Nat → Act) (n : Nat) : upTo as (n + 1) = upTo as n ++ [as n] := by
  rw [upTo, List.range_succ, List.map_append, List.map_singleton]
  rfl

theorem run_upTo_succ : run limit (upTo as (n + 1)) = (run limit (upTo as n)).act limit (as n) := by
  rw [upTo_succ, run_snoc]

theorem upTo_isPrefix (hk : n ≤ k) : upTo as n <+: upTo as k := by
  induction k, hk using Nat.le_induction with
  | base => exact List.prefix_refl _
  | succ k hk ih =>
    rw [upTo_succ]
    exact ih.trans (List.prefix_append _ _)

theorem closed_upTo (h : (run limit (upTo as n)).closed = true) (hk : n ≤ k) :
    (run limit (upTo as k)).closed = true :=
  closed_run.mpr ((upTo_isPrefix hk).subset (closed_run.mp h))

theorem input_upTo (h : .closes ∈ upTo as n) (hk : n ≤ k) :
    input (upTo as k) = input (upTo as n) := by
  have hfirst : upTo as n <+: upTo as k := upTo_isPrefix hk
  obtain ⟨later, hlater⟩ := hfirst
  rw [← hlater, input_append, if_pos h, List.append_nil]

theorem rank_upTo_le (h : (run limit (upTo as n)).closed = true) (hk : n ≤ k) :
    (run limit (upTo as k)).rank ≤ (run limit (upTo as n)).rank := by
  induction k, hk using Nat.le_induction with
  | base => exact le_rfl
  | succ k hk ih =>
    rw [run_upTo_succ]
    exact (rank_act_le (closed_upTo h hk)).trans ih

theorem stopped_upTo {p : Parting} (h : (run limit (upTo as n)).phase = .stopped p) (hk : n ≤ k) :
    (run limit (upTo as k)).phase = .stopped p := by
  induction k, hk using Nat.le_induction with
  | base => exact h
  | succ k hk ih =>
    rw [run_upTo_succ]
    exact stopped_act ih

/-- While the loop reads, the rank is odd, and while it waits for a call, even: if the loop has gone
on before it is polled, the rank has fallen already. -/
theorem rank_falls_of_polled (hclosed : (run limit (upTo as n)).closed = true)
    (hreading : (run limit (upTo as n)).phase = .reading) (hk : n ≤ k) (hact : as k = .polled) :
    ∃ m ≥ n, (run limit (upTo as m)).rank < (run limit (upTo as n)).rank := by
  have hle := rank_upTo_le hclosed hk
  cases hphase : (run limit (upTo as k)).phase with
  | reading =>
    refine ⟨k + 1, hk.trans (Nat.le_succ k), ?_⟩
    rw [run_upTo_succ, hact]
    exact (rank_poll_lt (closed_upTo hclosed hk) hphase).trans_le hle
  | calling _ | stopped _ =>
    refine ⟨k, hk, lt_of_le_of_ne hle ?_⟩
    simp only [rank, hreading, hphase]
    omega

theorem rank_falls_of_returns (hclosed : (run limit (upTo as n)).closed = true)
    (hcalling : (run limit (upTo as n)).phase = .calling t) (hk : n ≤ k) (hact : as k = .returns) :
    ∃ m ≥ n, (run limit (upTo as m)).rank < (run limit (upTo as n)).rank := by
  have hle := rank_upTo_le hclosed hk
  cases hphase : (run limit (upTo as k)).phase with
  | calling _ =>
    refine ⟨k + 1, hk.trans (Nat.le_succ k), ?_⟩
    rw [run_upTo_succ, hact]
    exact (rank_finish_lt hphase).trans_le hle
  | reading | stopped _ =>
    refine ⟨k, hk, lt_of_le_of_ne hle ?_⟩
    simp only [rank, hcalling, hphase]
    omega

/-- Once the input is closed, a loop that is polled again and again and whose calls return stops
some time. -/
theorem stopped_of_closed (hpolled : ∀ n, ∃ k ≥ n, as k = .polled)
    (hreturns : ∀ n t, (run limit (upTo as n)).phase = .calling t → ∃ k ≥ n, as k = .returns)
    (hclosed : (run limit (upTo as n)).closed = true) :
    ∃ k ≥ n, ∃ p, (run limit (upTo as k)).phase = .stopped p := by
  induction hr : (run limit (upTo as n)).rank using Nat.strongRecOn generalizing n with
  | _ r ih =>
    subst hr
    have hlater : (∃ m ≥ n, (run limit (upTo as m)).rank < (run limit (upTo as n)).rank) →
        ∃ k ≥ n, ∃ p, (run limit (upTo as k)).phase = .stopped p := by
      rintro ⟨m, hm, hlt⟩
      obtain ⟨k, hk, hstopped⟩ := ih _ hlt (closed_upTo hclosed hm) rfl
      exact ⟨k, hm.trans hk, hstopped⟩
    cases hphase : (run limit (upTo as n)).phase with
    | stopped p => exact ⟨n, le_rfl, p, hphase⟩
    | reading =>
      obtain ⟨k, hk, hact⟩ := hpolled n
      exact hlater (rank_falls_of_polled hclosed hphase hk hact)
    | calling t =>
      obtain ⟨k, hk, hact⟩ := hreturns n t hphase
      exact hlater (rank_falls_of_returns hclosed hphase hk hact)

/-! ## The loop as a whole -/

theorem own_of_run {as : List Act} {bytes : List UInt8} (h : .hangsUp ∉ as)
    (hclosed : .closes ∈ as → more = []) (hinput : input as ++ more = bytes) :
    own (run limit as).marks <+: (script limit bytes).1 ∧
      ∀ p, (run limit as).phase = .stopped p →
        script limit bytes = (own (run limit as).marks, p) := by
  have hwhole : (run limit as).whole limit more = script limit bytes := by
    rw [whole_run h hclosed, hinput]
  refine ⟨⟨_, congrArg Prod.fst hwhole⟩, fun p hstopped => ?_⟩
  rw [← hwhole, whole, due, hstopped, onto, List.append_nil]

theorem unreadable_eq (f : Json.Fault) : ∃ text, Message.unreadable f =
    .response ⟨"2.0", .null, none, some ⟨-32700, text, none⟩⟩ :=
  ⟨_, rfl⟩

/-- The loop as a whole, for any input and any doings of the handler. While messages for the editor
are taken, it keeps to the script of the input: every body that is no message gets one complaint,
without an id, and nothing else; every request and every notification gets one call, in order, and
nothing more is heard before that call has returned; a response gets nothing. When the loop has
stopped, the whole script has been done and the loop has ended as the script does: without a fault
after the first exit or at the end of the input, or at the first flaw.

And it does stop, if the input is closed some time, the loop is always polled again, and no call
lasts for ever; after that it does nothing more. -/
theorem listens (limit : Nat) (bytes : List UInt8) :
    (∀ (as : List Act) (more : List UInt8), .hangsUp ∉ as → (.closes ∈ as → more = []) →
      input as ++ more = bytes →
        own (run limit as).marks <+: (script limit bytes).1 ∧
        ∀ p, (run limit as).phase = .stopped p →
          script limit bytes = (own (run limit as).marks, p)) ∧
    (∀ as : Nat → Act, (∀ n, as n ≠ .hangsUp) →
      (∃ n, .closes ∈ upTo as n ∧ input (upTo as n) = bytes) →
      (∀ n, ∃ k ≥ n, as k = .polled) →
      (∀ n t, (run limit (upTo as n)).phase = .calling t → ∃ k ≥ n, as k = .returns) →
        ∃ n, ∀ k ≥ n, (run limit (upTo as k)).phase = .stopped (script limit bytes).2 ∧
          own (run limit (upTo as k)).marks = (script limit bytes).1) ∧
    ∀ f, ∃ text, Message.unreadable f =
      .response ⟨"2.0", .null, none, some ⟨-32700, text, none⟩⟩ := by
  refine ⟨fun as more h hclosed hinput => own_of_run h hclosed hinput,
    fun as hstays ⟨n, hcloses, hinput⟩ hpolled hreturns => ?_, unreadable_eq⟩
  obtain ⟨m, hm, p, hstopped⟩ := stopped_of_closed hpolled hreturns (closed_run.mpr hcloses)
  refine ⟨m, fun k hk => ?_⟩
  have hnever : .hangsUp ∉ upTo as k := fun hmem => by
    obtain ⟨i, -, hi⟩ := List.mem_map.mp hmem
    exact hstays i hi
  have hbytes : input (upTo as k) ++ [] = bytes := by
    rw [List.append_nil, input_upTo hcloses (hm.trans hk), hinput]
  have hphase := stopped_upTo hstopped hk
  have hscript := (own_of_run hnever (fun _ => rfl) hbytes).2 p hphase
  rw [hscript]
  exact ⟨hphase, rfl⟩

/-- A body that is no message, a request, a response, an exit and something after it. The first
bytes arrive on their own, and the handler puts in a word of its own. -/
theorem listens_past_bad_body :
    let bodies := ["\x7boops", "\x7b\"jsonrpc\":\"2.0\",\"id\":1,\"method\":\"ping\"\x7d",
      "\x7b\"jsonrpc\":\"2.0\",\"id\":2\x7d",
      "\x7b\"jsonrpc\":\"2.0\",\"method\":\"exit\"\x7d", "[]"]
    let bytes := bodies.flatMap fun body => Utf8.encode (frameText body).toList
    let ping := Turn.request (.ofInt 1) "ping" none
    let quit := Turn.notification "exit" none
    let done : List Mark := [.heard (.unreadable .notJson), .complained (.unreadable .notJson),
      .heard ping, .called ping, .returned ping, .heard .passed,
      .heard quit, .called quit, .returned quit]
    let as : Nat → Act := fun
      | 0 => .arrives (bytes.take 30)
      | 1 => .polled
      | 2 => .speaks (.notify "log" none)
      | 3 => .arrives (bytes.drop 30)
      | 4 => .closes
      | n + 5 => if n % 2 = 0 then .polled else .returns
    own (run 64 (upTo as 3)).marks <+: done ∧
      ∃ n, ∀ k ≥ n, (run 64 (upTo as k)).phase = .stopped .done ∧
        own (run 64 (upTo as k)).marks = done := by
  intro bodies bytes ping quit done as
  have hscript : script 64 bytes = (done, .done) := by decide +kernel
  have hstays : ∀ n, as n ≠ .hangsUp := by
    intro n
    match n with
    | 0 | 1 | 2 | 3 | 4 => exact Act.noConfusion
    | n + 5 =>
      dsimp only [as]
      split_ifs <;> exact Act.noConfusion
  obtain ⟨hkeeps, hend, -⟩ := listens 64 bytes
  have hpart := (hkeeps (upTo as 3) (bytes.drop 30) (by decide +kernel) (by decide +kernel)
    (by decide +kernel)).1
  have hwhole := hend as hstays ⟨5, by decide +kernel, by decide +kernel⟩
    (fun n => ⟨2 * n + 5, by omega, if_pos (Nat.mul_mod_right 2 n)⟩)
    (fun n _ _ => ⟨2 * n + 1 + 5, by omega, if_neg (by omega)⟩)
  rw [hscript] at hpart hwhole
  exact ⟨hpart, hwhole⟩

end Listener

end ShipBridge.Editor
