import ShipBridge.Proofs.EventStream.Blocks
import ShipBridge.Proofs.Session.Cursor

/-!
# Blocks without an id

The decoder hands the id in force to every event, and the session takes an event whose number is not
above the last one received for a replay. A block without an id line is therefore judged by a number
that belongs to an earlier block of the same body. Before any number is in force its frame is
dispatched and not counted. Afterwards it is passed over, because while the stream reads the number
of every block with data has been received; only a number that came in a block without data is still
new, and then the block is counted under it.
-/

namespace ShipBridge

open EventStream

namespace Session

variable {n : Nat} {s : Session}

def Action.event? : Action → Option Event
  | .receive e => some e
  | _ => none

/-- The number that an id stands for has been received, or overtaken. -/
def Heard (s : Session) (id : List Char) : Prop :=
  ∀ k, idNumber? id = some k → ∃ r, s.state.resumePoint = some r ∧ k ≤ r

theorem heard_nil (s : Session) : s.Heard [] := nofun

/-- Whether it is taken in or passed over, an event leaves its number heard. -/
theorem heard_receive (hs : s.stream = .reading) {e : Event} {id : List Char}
    (he : e.number? = idNumber? id) : (s.act n (.receive e)).Heard id := by
  intro k hk
  rw [← he] at hk
  by_cases ht : s.takes e = true
  · exact ⟨k, act_receive_resumePoint hk ht, Nat.le_refl k⟩
  · rw [act_receive_of_not_takes (by simpa using ht)]
    have ha : s.state.admits e = false := by simpa [takes, hs] using ht
    rw [State.admits_eq _ hk] at ha
    cases hr : s.state.resumePoint with
    | none =>
      rw [hr] at ha
      cases ha
    | some r =>
      rw [hr] at ha
      exact ⟨r, rfl, by simpa using ha⟩

theorem Heard.act {id : List Char} (h : s.Heard id) {a : Action} (ha : ∀ e, a ≠ .receive e) :
    (s.act n a).Heard id := by
  intro k hk
  rw [act_resumePoint ha]
  exact h k hk

theorem reading_act (hs : s.stream = .reading) (hj : s.Joined) {a : Action}
    (ha : a.isSteady = true ∨ ∃ e, a = .receive e) : (s.act n a).stream = .reading := by
  rcases ha with ha | ⟨e, rfl⟩
  · rcases act_stream (n := n) (s := s) ha with h | ⟨hd, -⟩ | ⟨h | ⟨b, h⟩, -⟩
    · rw [h, hs]
    · rw [hj hd] at hs
      cases hs
    · rw [hs] at h
      cases h
    · rw [hs] at h
      cases h
  · rw [act_receive_stream, hs]

theorem reading_run (hs : s.stream = .reading) (hj : s.Joined) {as : List Action}
    (has : ∀ a ∈ as, a.isSteady = true ∨ ∃ e, a = .receive e) :
    (run n s as).stream = .reading := by
  induction as generalizing s with
  | nil => exact hs
  | cons a as ih =>
    exact ih (reading_act hs hj (has a List.mem_cons_self)) (hj.act a) fun b hb =>
      has b (List.mem_cons_of_mem a hb)

/-- While the blocks of a body are read, the number in force has been heard. -/
theorem heard_run (hs : s.stream = .reading) (hj : s.Joined) {as : List Action}
    (has : ∀ a ∈ as, a.isSteady = true ∨ ∃ e, a = .receive e) {bs : List Block}
    (hdata : ∀ b ∈ bs, values "data" b.lines ≠ []) {id : List Char} (hid : s.Heard id)
    (hread : as.filterMap Action.event? = blockEvents id bs) :
    (run n s as).Heard (inForceAfter id bs) := by
  induction as generalizing s bs id with
  | nil =>
    have hlength := length_blockEvents hdata id
    rw [← hread] at hlength
    obtain rfl := List.eq_nil_of_length_eq_zero hlength.symm
    exact hid
  | cons a as ih =>
    have ha := has a List.mem_cons_self
    have hsteps := fun c hc => has c (List.mem_cons_of_mem a hc)
    by_cases he : ∃ e, a = .receive e
    · obtain ⟨e, rfl⟩ := he
      cases bs with
      | nil => cases hread
      | cons b bs =>
        obtain ⟨d, hd, hnumber, -⟩ := Block.event?_eq_some (hdata b List.mem_cons_self) id
        rw [blockEvents, hd] at hread
        obtain ⟨rfl, hrest⟩ := List.cons.inj hread
        exact ih (reading_act hs hj ha) (hj.act _) hsteps
          (fun c hc => hdata c (List.mem_cons_of_mem b hc)) (heard_receive hs hnumber) hrest
    · have hne : ∀ e, a ≠ .receive e := fun e h => he ⟨e, h⟩
      have hnone : a.event? = none := by
        cases a with
        | receive e => exact absurd rfl (hne e)
        | _ => rfl
      rw [List.filterMap_cons_none hnone] at hread
      exact ih (reading_act hs hj ha) (hj.act a) hsteps hdata (hid.act hne) hread

theorem State.accept_frame (s : State) (data : String) : s.accept data =
    { s with pokes := (s.accept data).pokes, subscriptions := (s.accept data).subscriptions } := by
  unfold State.accept
  split
  · exact State.dispatch_eq s _
  · rfl

theorem act_receive_of_unnumbered (hs : s.stream = .reading) {e : Event} (he : e.number? = none) :
    s.act n (.receive e) = { s with state := s.state.accept e.data } := by
  simp only [act, receive, hs, State.handle, he]

theorem act_receive_of_numbered (hs : s.stream = .reading) {e : Event} {k : Nat}
    (he : e.number? = some k) : s.act n (.receive e) =
      if s.state.resumePoint.all (· < k)
      then { s with state := { s.state with receivedAny := true, received := k }.accept e.data }
      else s := by
  have ha := State.admits_eq s.state he
  split_ifs with hnew
  · have hnoted : s.state.noted e = { s.state with receivedAny := true, received := k } := by
      simp only [State.noted, he, Option.elim_some]
    rw [← hnoted]
    simp only [act, receive, hs, State.handle_eq, ha, hnew, if_true]
  · have ht : s.takes e = false := by
      rw [takes, ha, Bool.eq_false_iff.mpr hnew, Bool.and_false]
    exact act_receive_of_not_takes ht

/-- What becomes of a block with data and without an id line. The stream of a session that a run has
led to reads a body from its beginning, and the blocks before this one have been read; meanwhile the
session does whatever else it does, short of closing. Unless a number is in force, the block's frame
is dispatched and no counter moves. A number in force decides as if it were the block's own, and if
no block before this one lacked data, the block changes nothing at all. -/
theorem idless_block {past early : List Action} (hopen : (run n {} past).stream = .reading)
    (hearly : ∀ a ∈ early, a.isSteady = true ∨ ∃ e, a = .receive e) {cs : List Char}
    (hmark : cs.head? ≠ some byteOrderMark) {before after : List Block} {b : Block}
    (hcs : endedLines [] cs = (before ++ b :: after).flatMap Block.ended)
    (hdata : values "data" b.lines ≠ []) (hid : lastId? b.lines = none)
    (hread : early.filterMap Action.event? = blockEvents [] before) :
    let s := run n (run n {} past) early
    let inForce? := idNumber? (inForceAfter [] before)
    ∃ e, (events (Utf8.encode cs))[(blockEvents [] before).length]? = some e ∧
      e.data = String.ofList (['\n'].intercalate (values "data" b.lines)) ∧
      (inForce? = none → s.act n (.receive e) = { s with state := s.state.accept e.data } ∧
        (s.act n (.receive e)).state.received = s.state.received ∧
        (s.act n (.receive e)).state.acknowledged = s.state.acknowledged) ∧
      (∀ k, inForce? = some k → s.act n (.receive e) = if s.state.resumePoint.all (· < k)
        then { s with state := { s.state with receivedAny := true, received := k }.accept e.data }
        else s) ∧
      ((∀ c ∈ before, values "data" c.lines ≠ []) → inForce?.isSome →
        s.act n (.receive e) = s) := by
  intro s inForce?
  obtain ⟨e, he, hnumber, hvalue⟩ := Block.event?_eq_some hdata (inForceAfter [] before)
  have hkeep : b.idAfter (inForceAfter [] before) = inForceAfter [] before := by
    rw [Block.idAfter, hid]
    rfl
  rw [hkeep] at hnumber
  have hreading : s.stream = .reading := reading_run hopen (joined_run past) hearly
  have hnumbered : ∀ k, inForce? = some k → s.act n (.receive e) = _ := fun k hk =>
    act_receive_of_numbered hreading (hnumber.trans hk)
  refine ⟨e, ?_, hvalue, fun hn => ?_, hnumbered, fun hbefore hn => ?_⟩
  · have hevents : events (Utf8.encode cs) = blockEvents [] before ++
        e :: blockEvents (b.idAfter (inForceAfter [] before)) after := by
      rw [events_of_blocks hmark hcs, blockEvents_append, blockEvents, he]
      rfl
    rw [hevents, List.getElem?_append_right (Nat.le_refl _), Nat.sub_self]
    rfl
  · have hact := act_receive_of_unnumbered (n := n) hreading (hnumber.trans hn)
    rw [hact]
    refine ⟨rfl, ?_⟩
    rw [State.accept_frame]
    exact ⟨rfl, rfl⟩
  · obtain ⟨k, hk⟩ := Option.isSome_iff_exists.mp hn
    have hheard : s.Heard (inForceAfter [] before) :=
      heard_run hopen (joined_run past) hearly hbefore (heard_nil _) hread
    obtain ⟨r, hr, hle⟩ := hheard k hk
    have hold : ¬(s.state.resumePoint.all (· < k)) = true := by
      rw [hr, Option.all_some, decide_eq_true_iff]
      omega
    rw [hnumbered k hk, if_neg hold]

/-- The second block has no id, and the first has left number 1 in force. -/
theorem idless_block_after_number :
    let cs := "id: 1\ndata: a\n\ndata: b\n\n".toList
    let past : List Action := [.connect, .awaken, .opened]
    let first : Event := { id := some "1", kind := some "message", data := "a" }
    let s := run 3 (run 3 {} past) [.receive first]
    ∃ e, (events (Utf8.encode cs))[1]? = some e ∧ e.data = "b" ∧ s.act 3 (.receive e) = s := by
  intro cs past first s
  let a : Block := ⟨["id: 1".toList, "data: a".toList], by decide⟩
  let b : Block := ⟨["data: b".toList], by decide⟩
  have hopen : (run 3 {} past).stream = .reading := rfl
  have hearly : ∀ a ∈ [Action.receive first], a.isSteady = true ∨ ∃ e, a = .receive e :=
    fun a ha => .inr ⟨first, List.mem_singleton.mp ha⟩
  have hcs : endedLines [] cs = ([a] ++ b :: []).flatMap Block.ended := by decide +kernel
  obtain ⟨e, he, hdata, -, -, hact⟩ := idless_block hopen hearly (by decide +kernel) hcs
    (by decide +kernel) (by decide +kernel) (by decide +kernel)
  exact ⟨e, he, hdata.trans (by decide +kernel), hact (by decide +kernel) (by decide +kernel)⟩

/-- Of two diffs in one body, the second in a block without an id, the subscriber gets the first
alone. -/
theorem idless_diff_lost :
    let frame (word : String) := (Json.object [("id", 1), ("json", .string word),
      ("response", .string "diff")]).text
    let cs := ("id: 1\ndata: " ++ frame "a" ++ "\n\ndata: " ++ frame "b" ++ "\n\n").toList
    let past : List Action :=
      [.call 0 (.subscribe "zod" "hood" "/path"), .proceed, .settle (.ok ()), .awaken, .opened]
    let es := events (Utf8.encode cs)
    let s := run 3 {} (past ++ es.map .receive)
    es.map (fun e => (Wire.Frame.decode e.data.toList).toOption) =
        [some (.diff 1 (.string "a")), some (.diff 1 (.string "b"))] ∧
      (s.state.subscriptions.mailbox 0).notices = [.diff (.string "a")] ∧ s.stream = .reading := by
  decide +kernel

end Session

end ShipBridge
