import ShipBridge.Proofs.EventStream.Log
import ShipBridge.Proofs.Session.Cursor

/-!
# Reading the ship's log over many connections

Each connection of the event stream carries a stretch of the log that begins at or before the
first entry after the point to resume from. It may be cut anywhere, and what has arrived of it is
decoded piece by piece and handed to the session event by event. Over all connections together
the session takes in the entries of the log in order, each once: the entries that some connection
has brought completely, and nothing else.
-/

namespace ShipBridge

open EventStream

structure Transfer where
  start : Nat := 0
  arrived : List UInt8 := []
deriving DecidableEq

/-- Has a connection brought the entry at `i` in the log completely? -/
def Transfer.Brings (log : List LogEntry) (c : Transfer) (i : Nat) : Prop :=
  c.start ≤ i ∧ i < log.length ∧ body ((log.drop c.start).take (i + 1 - c.start)) <+: c.arrived

/-- A session and the connection that feeds it. `items` are decoded and not yet read, `past` are
the earlier connections, and `accepted` the events that the session has taken in. -/
structure Reader where
  session : Session := {}
  decoder : Decoder := {}
  items : List Item := []
  ended : Bool := false
  past : List Transfer := []
  current : Transfer := {}
  accepted : List Event := []

/-- How many entries of the log lie up to a point to resume from. -/
def entriesUpTo (log : List LogEntry) : Option Nat → Nat
  | none => 0
  | some k => (log.takeWhile fun e => e.number ≤ k).length

namespace Reader

inductive Move where
  | opened (start : Nat)
  | refuse
  | arrive (bytes : List UInt8)
  | breakOff (message : String)
  | finish
  | read
  | other (a : Session.Action)

/-- The reader after a move. An item that is a fault, and the end of a body that has been read,
make the stream fail. -/
def move (n : Nat) (r : Reader) : Move → Reader
  | .opened start => { r with
      session := r.session.act n .opened
      decoder := {}
      items := []
      ended := false
      current := { start } }
  | .refuse => { r with session := r.session.act n .fail }
  | .arrive bytes => { r with
      decoder := (r.decoder.chunk (.bytes bytes)).1
      items := r.items ++ (r.decoder.chunk (.bytes bytes)).2
      current := { r.current with arrived := r.current.arrived ++ bytes } }
  | .breakOff message => { r with
      items := r.items ++ (r.decoder.chunk (.failure message)).2
      ended := true }
  | .finish => { r with items := r.items ++ r.decoder.finish, ended := true }
  | .read => match r.items with
    | .ok e :: items => { r with
        session := r.session.act n (.receive e)
        items
        accepted := if r.session.takes e then r.accepted ++ [e] else r.accepted }
    | _ => { r with
        session := r.session.act n .fail
        decoder := {}
        items := []
        ended := false
        past := r.past ++ [r.current]
        current := {} }
  | .other a => { r with session := r.session.act n a }

def run (n : Nat) (r : Reader) (ms : List Move) : Reader := ms.foldl (move n) r

def isReading (r : Reader) : Bool := r.session.stream == .reading

/-- May a move take place when the ship holds this log? -/
def allows (log : List LogEntry) (r : Reader) : Move → Bool
  | .opened start => match r.session.stream with
    | .opening resume _ _ => start ≤ entriesUpTo log resume
    | _ => false
  | .refuse => match r.session.stream with
    | .opening .. => true
    | _ => false
  | .arrive bytes => r.isReading && !r.ended &&
    (r.current.arrived ++ bytes).isPrefixOf (body (log.drop r.current.start))
  | .breakOff _ | .finish => r.isReading && !r.ended
  | .read => r.isReading && (!r.items.isEmpty || r.ended)
  | .other a => a.isSteady

def allowsAll (n : Nat) (log : List LogEntry) (r : Reader) : List Move → Bool
  | [] => true
  | m :: ms => r.allows log m && (r.move n m).allowsAll n log ms

def event? (r : Reader) : Move → Option Event
  | .read => match r.items with
    | .ok e :: _ => some e
    | _ => none
  | _ => none

/-- What a move does with the event that it hands to the session: the event is taken in, and then
the session counts it, decodes its data and dispatches that, or it is a replay, and the session
stays as it is. A move that hands over no event takes some other action at most. -/
inductive Handles (n : Nat) (r r' : Reader) : Option Event → Prop
  | takesIn {e} (accepted : r'.accepted = r.accepted ++ [e])
      (session : r'.session =
        { r.session with state := (r.session.state.noted e).accept e.data }) :
      Handles n r r' (some e)
  | passesOver {e k last} (accepted : r'.accepted = r.accepted)
      (session : r'.session = r.session) (number : e.number? = some k)
      (replay : r.session.state.resumePoint = some last ∧ k ≤ last) : Handles n r r' (some e)
  | acts (accepted : r'.accepted = r.accepted)
      (session : r'.session = r.session ∨
        ∃ a, (∀ e, a ≠ .receive e) ∧ r'.session = r.session.act n a) : Handles n r r' none

variable {n : Nat} {log : List LogEntry} {r : Reader} {k : Nat}

/-! ## Positions in the log -/

section Positions

variable (hlog : log.Pairwise (·.number < ·.number))

include hlog

theorem number_lt {i j : Nat} (hj : j < log.length) (h : i < j) :
    log[i].number < log[j].number := List.pairwise_iff_getElem.mp hlog i j _ hj h

theorem number_le {i j : Nat} (hj : j < log.length) (h : i ≤ j) :
    log[i].number ≤ log[j].number := by
  rcases Nat.lt_or_eq_of_le h with h | rfl
  · exact Nat.le_of_lt (number_lt hlog hj h)
  · exact Nat.le_refl _

omit hlog in
theorem getLast?_take_succ {i : Nat} (hi : i < log.length) :
    (log.take (i + 1)).getLast?.map LogEntry.number = some log[i].number := by
  rw [← List.take_append_getElem hi, List.getLast?_concat]
  rfl

/-- The entries up to the number of the last of `k` entries are those `k`. -/
theorem entriesUpTo_take (hk : k ≤ log.length) :
    entriesUpTo log ((log.take k).getLast?.map LogEntry.number) = k := by
  cases k with
  | zero => rfl
  | succ i =>
    have hbefore : ∀ e ∈ log.take (i + 1), decide (e.number ≤ log[i].number) = true := by
      intro e he
      obtain ⟨j, hj, rfl⟩ := List.mem_take_iff_getElem.mp he
      exact decide_eq_true (number_le hlog hk (by omega))
    have hafter : (log.drop (i + 1)).takeWhile (fun e => e.number ≤ log[i].number) = [] := by
      by_cases hi : i + 1 < log.length
      · have hlt := number_lt hlog hi (Nat.lt_succ_self i)
        rw [List.drop_eq_getElem_cons hi, List.takeWhile_cons, if_neg (by simpa using hlt)]
      · rw [List.drop_eq_nil_of_le (by omega)]
        rfl
    have hwhile : (log.take (i + 1) ++ log.drop (i + 1)).takeWhile
        (fun e => e.number ≤ log[i].number) = log.take (i + 1) ++ [] :=
      hafter ▸ List.takeWhile_append_of_pos hbefore
    rw [List.take_append_drop, List.append_nil] at hwhile
    rw [getLast?_take_succ hk, entriesUpTo, hwhile, List.length_take]
    omega

/-- Once the first `k` entries have been taken in, of the entries up to the one at `k` that one
alone is no replay. -/
theorem all_lt_number (hk : k ≤ log.length) {i : Nat} (hi : i < log.length) (hik : i ≤ k) :
    ((log.take k).getLast?.map LogEntry.number).all (· < log[i].number) = decide (i = k) := by
  cases k with
  | zero =>
    obtain rfl := Nat.le_zero.mp hik
    rfl
  | succ j =>
    rw [getLast?_take_succ hk, Option.all_some, decide_eq_decide]
    constructor
    · intro hlt
      by_contra hne
      have hle := number_le hlog (i := i) (j := j) (by omega) (by omega)
      omega
    · rintro rfl
      exact number_lt hlog hi (Nat.lt_succ_self j)

end Positions

theorem Transfer.not_brings_of_nil {c : Transfer} (h : c.arrived = []) (i : Nat) :
    ¬ c.Brings log i := by
  rintro ⟨hs, hi, hb⟩
  have hl := (events_mono hb).length_le
  rw [events_body, h, List.length_map, List.length_take, List.length_drop] at hl
  have hz : (events []).length = 0 := rfl
  omega

/-! ## The invariant -/

/-- What has been decoded of the current connection: events that have been read, none of them
beyond the first `k` entries of the log, and events that wait, followed by faults. -/
structure Queued (r : Reader) (k : Nat) (done pending : List Event) (faults : List Session.Fault) :
    Prop where
  decoded : events r.current.arrived = done ++ pending
  items : r.items = pending.map .ok ++ faults.map .error
  reached : r.current.start + done.length ≤ k
  ended : faults ≠ [] → r.ended = true

/-- The session has taken in the first `k` entries of the log. -/
structure Following (log : List LogEntry) (r : Reader) (k : Nat) : Prop where
  le : k ≤ log.length
  accepted : r.accepted = (log.take k).map LogEntry.event
  resume : r.session.state.resumePoint = (log.take k).getLast?.map LogEntry.number
  opening : ∀ resume b again, r.session.stream = .opening resume b again →
    resume = r.session.state.resumePoint
  joined : r.session.Joined
  decoder : r.decoder = (({} : Decoder).run r.current.arrived).1
  arrived : r.current.arrived <+: body (log.drop r.current.start)
  queued : ∃ done pending faults, r.Queued k done pending faults
  resting : r.session.stream ≠ .reading → r.items = [] ∧ r.current.arrived = []
  past : ∀ c ∈ r.past, ∀ i, c.Brings log i → i < k
  covered : ∀ i < k, ∃ c ∈ r.past ++ [r.current], c.Brings log i

theorem following_initial (log : List LogEntry) : ({} : Reader).Following log 0 where
  le := Nat.zero_le _
  accepted := rfl
  resume := rfl
  opening _ _ _ h := by cases h
  joined _ := rfl
  decoder := rfl
  arrived := List.nil_prefix
  queued := ⟨[], [], [], rfl, rfl, Nat.le_refl 0, fun h => absurd rfl h⟩
  resting _ := ⟨rfl, rfl⟩
  past c hc := by cases hc
  covered i hi := by omega

theorem Following.decoded (h : r.Following log k) :
    ∃ m, events r.current.arrived = ((log.drop r.current.start).take m).map LogEntry.event ∧
      (events r.current.arrived).length = m ∧ ∀ i, r.current.Brings log i ↔
        r.current.start ≤ i ∧ i < r.current.start + m := by
  obtain ⟨m, hm, hev, hbrings⟩ := events_of_prefix h.arrived
  refine ⟨m, hev, ?_, ?_⟩
  · rw [hev, List.length_map, List.length_take]
    omega
  · intro i
    rw [List.length_drop] at hm hbrings
    constructor
    · rintro ⟨hs, hi, hb⟩
      have hj := (hbrings (i + 1 - r.current.start) (by omega)).mp hb
      omega
    · rintro ⟨hs, hi⟩
      exact ⟨hs, by omega, (hbrings (i + 1 - r.current.start) (by omega)).mpr (by omega)⟩

theorem Following.lt_of_brings (h : r.Following log k) {done : List Event}
    {faults : List Session.Fault} (hq : r.Queued k done [] faults) {i : Nat}
    (hb : r.current.Brings log i) : i < k := by
  obtain ⟨m, -, hm, hbrings⟩ := h.decoded
  have hlt := ((hbrings i).mp hb).2
  have hreached := hq.reached
  rw [hq.decoded, List.append_nil] at hm
  omega

/-! ## One move -/

theorem isReading_eq : r.isReading = true ↔ r.session.stream = .reading := by
  simp [isReading]

theorem Following.opened (hlog : log.Pairwise (·.number < ·.number)) (h : r.Following log k)
    {start : Nat} (ha : r.allows log (.opened start) = true) :
    (r.move n (.opened start)).Following log k := by
  cases hs : r.session.stream with
  | opening resume b again =>
    have hstart : start ≤ k := by
      have hle : start ≤ entriesUpTo log resume := by simpa [allows, hs] using ha
      rwa [h.opening _ _ _ hs, h.resume, entriesUpTo_take hlog h.le] at hle
    have hstream : (r.session.act n .opened).stream = .reading := by
      simp [Session.act, Session.opened, hs]
    obtain ⟨-, hnone⟩ := h.resting (by simp [hs])
    exact { h with
      resume := (Session.act_resumePoint (by simp)).trans h.resume
      opening := fun _ _ _ ho => by
        change (r.session.act n .opened).stream = _ at ho
        rw [hstream] at ho
        cases ho
      joined := h.joined.act _
      decoder := rfl
      arrived := List.nil_prefix
      queued := ⟨[], [], [], rfl, rfl, hstart, fun hne => absurd rfl hne⟩
      resting := fun hne => absurd hstream hne
      covered := fun i hi => by
        obtain ⟨c, hc, hb⟩ := h.covered i hi
        rcases List.mem_append.mp hc with hc | hc
        · exact ⟨c, List.mem_append_left _ hc, hb⟩
        · rw [List.mem_singleton.mp hc] at hb
          exact absurd hb (Transfer.not_brings_of_nil hnone i) }
  | _ => simp [allows, hs] at ha

theorem Following.of_session (h : r.Following log k) {s : Session} (hj : s.Joined)
    (hr : s.state.resumePoint = r.session.state.resumePoint)
    (hs : s.stream ≠ .reading → r.session.stream ≠ .reading)
    (ho : ∀ resume b again, s.stream = .opening resume b again →
      resume = r.session.state.resumePoint) : { r with session := s }.Following log k := by
  obtain ⟨done, pending, faults, hq⟩ := h.queued
  exact { h with
    resume := hr.trans h.resume
    opening := fun resume b again hs => (ho resume b again hs).trans hr.symm
    joined := hj
    queued := ⟨done, pending, faults, hq.decoded, hq.items, hq.reached, hq.ended⟩
    resting := fun hne => h.resting (hs hne) }

theorem Following.refuse (h : r.Following log k) (ha : r.allows log .refuse = true) :
    (r.move n .refuse).Following log k := by
  refine h.of_session (h.joined.act _) (Session.act_resumePoint (by simp)) (fun _ => ?_)
    fun resume b again ho => absurd ho (Session.act_fail_stream.2 resume b again)
  intro hs
  simp [allows, hs] at ha

theorem Following.other (h : r.Following log k) {a : Session.Action} (ha : a.isSteady = true) :
    (r.move n (.other a)).Following log k := by
  have hr : (r.session.act n a).state.resumePoint = r.session.state.resumePoint :=
    Session.act_resumePoint fun e he => by
      rw [he] at ha
      cases ha
  refine h.of_session (h.joined.act a) hr ?_ ?_
  · rcases Session.act_stream (n := n) (s := r.session) ha with hs | ⟨hd, -, -⟩ | ⟨hs | ⟨b, hs⟩, -⟩
    · rw [hs]
      exact id
    · rw [h.joined hd]
      simp
    · simp [hs]
    · simp [hs]
  · intro resume b again ho
    rcases Session.act_stream (n := n) (s := r.session) ha with hs | ⟨-, -, hs⟩ |
      ⟨-, hs | ⟨c, g, hs⟩⟩
    · exact h.opening resume b again (hs ▸ ho)
    · rw [hs] at ho
      cases ho
    · rw [hs] at ho
      cases ho
    · rw [hs] at ho
      exact (Session.Stream.opening.inj ho).1.symm

theorem Following.arrive (h : r.Following log k) {bytes : List UInt8}
    (ha : r.allows log (.arrive bytes) = true) : (r.move n (.arrive bytes)).Following log k := by
  obtain ⟨⟨hr, he⟩, hp⟩ : (r.session.stream = .reading ∧ r.ended = false) ∧
      r.current.arrived ++ bytes <+: body (log.drop r.current.start) := by
    simpa [allows, isReading_eq] using ha
  obtain ⟨done, pending, faults, hq⟩ := h.queued
  obtain rfl : faults = [] := by
    by_contra hne
    rw [hq.ended hne] at he
    cases he
  have hev : events (r.current.arrived ++ bytes) =
      done ++ (pending ++ (r.decoder.run bytes).2) := by
    rw [events_append, hq.decoded, ← h.decoder, List.append_assoc]
  have hitems : r.items ++ (r.decoder.run bytes).2.map .ok =
      (pending ++ (r.decoder.run bytes).2).map .ok ++ [].map .error := by simp [hq.items]
  exact { h with
    decoder := by
      change (r.decoder.run bytes).1 = (({} : Decoder).run (r.current.arrived ++ bytes)).1
      rw [Decoder.run_append, h.decoder]
    arrived := hp
    queued := ⟨done, pending ++ (r.decoder.run bytes).2, [], hev, hitems, hq.reached,
      fun hne => absurd rfl hne⟩
    resting := fun hne => absurd hr hne
    covered := fun i hi => by
      obtain ⟨c, hc, hb⟩ := h.covered i hi
      rcases List.mem_append.mp hc with hc | hc
      · exact ⟨c, List.mem_append_left _ hc, hb⟩
      · rw [List.mem_singleton.mp hc] at hb
        obtain ⟨hs, hi, hb⟩ := hb
        exact ⟨_, List.mem_append_right _ (List.mem_singleton_self _), hs, hi,
          hb.trans (List.prefix_append _ _)⟩ }

theorem Following.of_end (h : r.Following log k) (hr : r.session.stream = .reading)
    (faults : List Session.Fault) :
    { r with items := r.items ++ faults.map Except.error, ended := true }.Following log k := by
  obtain ⟨done, pending, before, hq⟩ := h.queued
  have hitems : r.items ++ faults.map Except.error =
      pending.map .ok ++ (before ++ faults).map .error := by simp [hq.items]
  exact { h with
    queued := ⟨done, pending, before ++ faults, hq.decoded, hitems, hq.reached, fun _ => rfl⟩
    resting := fun hne => absurd hr hne }

theorem finish_eq (d : Decoder) : ∃ faults : List Session.Fault, d.finish = faults.map .error := by
  unfold Decoder.finish
  split
  · exact ⟨[], rfl⟩
  · exact ⟨[_], rfl⟩

/-- An event that waits is that of the next entry that the connection carries. It is taken in
exactly if it is the first that has not been. -/
theorem Following.takes_next (hlog : log.Pairwise (·.number < ·.number)) (h : r.Following log k)
    (hr : r.session.stream = .reading) {done pending : List Event} {e : Event}
    {faults : List Session.Fault} (hq : r.Queued k done (e :: pending) faults) :
    ∃ hi : r.current.start + done.length < log.length,
      e = log[r.current.start + done.length].event ∧
      r.session.takes e = decide (r.current.start + done.length = k) ∧
      r.current.Brings log (r.current.start + done.length) := by
  obtain ⟨m, hev, hm, hbrings⟩ := h.decoded
  have hlen : done.length < m := by
    rw [← hm, hq.decoded, List.length_append, List.length_cons]
    omega
  have hb := (hbrings (r.current.start + done.length)).mpr ⟨by omega, by omega⟩
  have hi := hb.2.1
  have heq : e = log[r.current.start + done.length].event := by
    have hget : (events r.current.arrived)[done.length]? = some e := by
      rw [hq.decoded]
      simp
    rw [hev] at hget
    have hj : done.length < (log.drop r.current.start).length := by
      rw [List.length_drop]
      omega
    simpa [hlen, hi] using hget.symm
  refine ⟨hi, heq, ?_, hb⟩
  rw [Session.takes, hr, Session.State.admits_eq r.session.state (heq ▸ LogEntry.number?_event _),
    h.resume, all_lt_number hlog h.le hi hq.reached]
  simp

theorem read_of_event {e : Event} {items : List Item} (h : r.items = .ok e :: items) :
    r.move n .read = { r with
      session := r.session.act n (.receive e)
      items
      accepted := if r.session.takes e then r.accepted ++ [e] else r.accepted } := by
  simp only [move, h]

theorem read_of_rest {done : List Event} {faults : List Session.Fault}
    (hq : r.Queued k done [] faults) : r.move n .read = { r with
      session := r.session.act n .fail
      decoder := {}
      items := []
      ended := false
      past := r.past ++ [r.current]
      current := {} } := by
  have hi := hq.items
  cases faults <;> simp only [List.map_nil, List.map_cons, List.nil_append] at hi <;>
    simp only [move, hi]

theorem Following.read_rest (h : r.Following log k) {done : List Event}
    {faults : List Session.Fault} (hq : r.Queued k done [] faults) :
    (r.move n .read).Following log k := by
  rw [read_of_rest hq]
  exact { h with
    resume := (Session.act_resumePoint (by simp)).trans h.resume
    opening := fun resume b again ho => absurd ho (Session.act_fail_stream.2 resume b again)
    joined := h.joined.act _
    decoder := rfl
    arrived := List.nil_prefix
    queued := ⟨[], [], [], rfl, rfl, Nat.zero_le k, fun hne => absurd rfl hne⟩
    resting := fun _ => ⟨rfl, rfl⟩
    past := fun c hc i hb => by
      rcases List.mem_append.mp hc with hc | hc
      · exact h.past c hc i hb
      · rw [List.mem_singleton.mp hc] at hb
        exact h.lt_of_brings hq hb
    covered := fun i hi => by
      obtain ⟨c, hc, hb⟩ := h.covered i hi
      exact ⟨c, List.mem_append_left _ hc, hb⟩ }

theorem Following.read_replay (h : r.Following log k) (hr : r.session.stream = .reading)
    {done pending : List Event} {e : Event} {faults : List Session.Fault}
    (hq : r.Queued k done (e :: pending) faults) (ht : r.session.takes e = false)
    (hlt : r.current.start + done.length < k) : (r.move n .read).Following log k := by
  rw [read_of_event hq.items, Session.act_receive_of_not_takes ht, ht, if_neg Bool.false_ne_true]
  have hreached : r.current.start + (done ++ [e]).length ≤ k := by
    rw [List.length_append, List.length_singleton]
    exact hlt
  exact { h with
    queued := ⟨done ++ [e], pending, faults, by simp [hq.decoded], rfl, hreached, hq.ended⟩
    resting := fun hne => absurd hr hne }

theorem Following.read_new (h : r.Following log k) (hr : r.session.stream = .reading)
    {done pending : List Event} {e : Event} {faults : List Session.Fault}
    (hq : r.Queued k done (e :: pending) faults) (ht : r.session.takes e = true)
    (hk : r.current.start + done.length = k) (hlen : k < log.length) (he : e = log[k].event)
    (hb : r.current.Brings log k) : (r.move n .read).Following log (k + 1) := by
  have hnum : e.number? = some log[k].number := he ▸ LogEntry.number?_event _
  rw [read_of_event hq.items, ht, if_pos rfl]
  exact {
    le := hlen
    accepted := by
      rw [h.accepted, he, ← List.take_append_getElem hlen, List.map_append]
      rfl
    resume := by rw [Session.act_receive_resumePoint hnum ht, getLast?_take_succ hlen]
    opening := fun _ _ _ ho => by
      rw [Session.act_receive_stream, hr] at ho
      cases ho
    joined := h.joined.act _
    decoder := h.decoder
    arrived := h.arrived
    queued := ⟨done ++ [e], pending, faults, by simp [hq.decoded], rfl, by
      rw [List.length_append, List.length_singleton, ← Nat.add_assoc, hk], hq.ended⟩
    resting := fun hne => (hne ((Session.act_receive_stream (n := n) e).trans hr)).elim
    past := fun c hc i hb => Nat.lt_succ_of_lt (h.past c hc i hb)
    covered := fun i hi => by
      rcases Nat.lt_or_eq_of_le (Nat.le_of_lt_succ hi) with hi | rfl
      · exact h.covered i hi
      · exact ⟨_, List.mem_append_right _ (List.mem_singleton_self _), hb⟩ }

theorem Following.read (hlog : log.Pairwise (·.number < ·.number)) (h : r.Following log k)
    (ha : r.allows log .read = true) : ∃ k', (r.move n .read).Following log k' := by
  have hr : r.session.stream = .reading := by
    have hb : r.isReading = true := by
      simp only [allows, Bool.and_eq_true] at ha
      exact ha.1
    exact isReading_eq.mp hb
  obtain ⟨done, pending, faults, hq⟩ := h.queued
  cases pending with
  | nil => exact ⟨k, h.read_rest hq⟩
  | cons e pending =>
    obtain ⟨hi, he, ht, hb⟩ := h.takes_next hlog hr hq
    by_cases hk : r.current.start + done.length = k
    · subst hk
      exact ⟨_, h.read_new hr hq (by simpa using ht) rfl hi he hb⟩
    · have hlt := Nat.lt_of_le_of_ne hq.reached hk
      exact ⟨k, h.read_replay hr hq (by simpa [hk] using ht) hlt⟩

theorem Following.move (hlog : log.Pairwise (·.number < ·.number)) (h : r.Following log k)
    {m : Move} (ha : r.allows log m = true) : ∃ k', (r.move n m).Following log k' := by
  have hreading (hb : (r.isReading && !r.ended) = true) : r.session.stream = .reading := by
    simp only [Bool.and_eq_true] at hb
    exact isReading_eq.mp hb.1
  cases m with
  | opened start => exact ⟨k, h.opened hlog ha⟩
  | refuse => exact ⟨k, h.refuse ha⟩
  | arrive bytes => exact ⟨k, h.arrive ha⟩
  | breakOff message => exact ⟨k, h.of_end (hreading ha) [transportFault message]⟩
  | finish =>
    obtain ⟨faults, hf⟩ := finish_eq r.decoder
    refine ⟨k, ?_⟩
    rw [Reader.move, hf]
    exact h.of_end (hreading ha) faults
  | read => exact h.read hlog ha
  | other a => exact ⟨k, h.other ha⟩

theorem Following.run (hlog : log.Pairwise (·.number < ·.number)) (h : r.Following log k)
    {ms : List Move} (ha : r.allowsAll n log ms = true) :
    ∃ k', (r.run n ms).Following log k' := by
  induction ms generalizing r k with
  | nil => exact ⟨k, h⟩
  | cons m ms ih =>
    rw [allowsAll, Bool.and_eq_true] at ha
    obtain ⟨k', h'⟩ := h.move (n := n) hlog ha.1
    exact ih h' ha.2

/-! ## What becomes of the events -/

theorem allows_of_split {before after : List Move} {m : Move}
    (ha : r.allowsAll n log (before ++ m :: after) = true) :
    (r.run n before).allows log m = true := by
  induction before generalizing r with
  | nil =>
    rw [List.nil_append, allowsAll, Bool.and_eq_true] at ha
    exact ha.1
  | cons b before ih =>
    rw [List.cons_append, allowsAll, Bool.and_eq_true] at ha
    exact ih ha.2

theorem handles_event {e : Event} {items : List Item} (hr : r.session.stream = .reading)
    (hi : r.items = .ok e :: items) : Handles n r (r.move n .read) (some e) := by
  have hmove := read_of_event (n := n) hi
  have hsession : (r.move n .read).session =
      { r.session with state := r.session.state.handle e } := by
    rw [hmove]
    simp only [Session.act, Session.receive, hr]
  have htakes : r.session.takes e = r.session.state.admits e := by simp [Session.takes, hr]
  rw [Session.State.handle_eq] at hsession
  cases ha : r.session.state.admits e with
  | true =>
    rw [ha, if_pos rfl] at hsession
    exact .takesIn (by rw [hmove, htakes, if_pos ha]) hsession
  | false =>
    rw [ha, if_neg Bool.false_ne_true] at hsession
    obtain ⟨number, hnumber, hreplay⟩ : ∃ number, e.number? = some number ∧
        (r.session.state.receivedAny = true ∧ number ≤ r.session.state.received) := by
      cases hk : e.number? with
      | none => simp [Session.State.admits, hk] at ha
      | some number => exact ⟨number, rfl, by simpa [Session.State.admits, hk] using ha⟩
    refine .passesOver ?_ hsession hnumber ⟨if_pos hreplay.1, hreplay.2⟩
    rw [hmove, htakes, ha, if_neg Bool.false_ne_true]

theorem handles_move {m : Move} (ha : r.allows log m = true) :
    Handles n r (r.move n m) (r.event? m) := by
  have hacts {r' : Reader} {a : Session.Action} (hacc : r'.accepted = r.accepted)
      (hreceive : ∀ e, a ≠ .receive e) (hs : r'.session = r.session.act n a) :
      Handles n r r' none := .acts hacc (.inr ⟨a, hreceive, hs⟩)
  cases m with
  | opened start => exact hacts (a := .opened) rfl nofun rfl
  | refuse => exact hacts (a := .fail) rfl nofun rfl
  | arrive | breakOff | finish => exact .acts rfl (.inl rfl)
  | other a =>
    refine hacts (a := a) rfl ?_ rfl
    rintro e rfl
    cases ha
  | read =>
    have hr : r.session.stream = .reading := by
      simp only [allows, Bool.and_eq_true] at ha
      exact isReading_eq.mp ha.1
    cases hi : r.items with
    | nil =>
      simp only [event?, hi]
      exact hacts (a := .fail) (by simp [move, hi]) nofun (by simp [move, hi])
    | cons item items =>
      cases item with
      | ok e =>
        simp only [event?, hi]
        exact handles_event hr hi
      | error f =>
        simp only [event?, hi]
        exact hacts (a := .fail) (by simp [move, hi]) nofun (by simp [move, hi])

/-- Over any number of connections the session takes in a stretch of the log from its beginning,
in order and each entry once, and the point to resume from is its last entry. The stretch consists
of entries that some connection has brought completely, and holds every entry that an earlier
connection has brought completely, and every one that the current connection has brought completely
once all its events have been read. An event is decoded and dispatched when it is taken in, and at
no other time. -/
theorem accepts_log_once (n : Nat) {log : List LogEntry}
    (hlog : log.Pairwise (·.number < ·.number)) {ms : List Move}
    (hms : ({} : Reader).allowsAll n log ms = true) :
    let r := ({} : Reader).run n ms
    ∃ k ≤ log.length, r.accepted = (log.take k).map LogEntry.event ∧
      r.session.state.resumePoint = (log.take k).getLast?.map LogEntry.number ∧
      (∀ i < k, ∃ c ∈ r.past ++ [r.current], c.Brings log i) ∧
      (∀ c ∈ r.past, ∀ i, c.Brings log i → i < k) ∧
      (r.items = [] → ∀ i, r.current.Brings log i → i < k) ∧
      ∀ before m after, ms = before ++ m :: after →
        let q := ({} : Reader).run n before
        Handles n q (q.move n m) (q.event? m) := by
  obtain ⟨k, h⟩ := (following_initial log).run (n := n) hlog hms
  refine ⟨k, h.le, h.accepted, h.resume, h.covered, h.past, ?_, fun before m after hsplit =>
    handles_move (allows_of_split (hsplit ▸ hms))⟩
  intro hnil i hb
  obtain ⟨done, pending, faults, hq⟩ := h.queued
  have hitems := hq.items
  rw [hnil] at hitems
  obtain rfl : pending = [] := by
    cases pending with
    | nil => rfl
    | cons e pending => cases hitems
  exact h.lt_of_brings hq hb

/-- The first connection breaks off inside the second entry; the second one begins with the first
entry again. The subscription gets the diff of each entry once. -/
theorem accepts_log_once_overlap :
    let first : LogEntry := ⟨4, "\x7b\"id\":1,\"response\":\"diff\",\"json\":\"\u00e4\"\x7d",
      by decide, by simp⟩
    let second : LogEntry := ⟨7, "\x7b\"id\":1,\"response\":\"diff\",\"json\":\"\u20ac\"\x7d",
      by decide, by simp⟩
    let log := [first, second]
    let ms : List Move := [.other .connect, .other .awaken, .opened 0,
      .other (.call 0 (.subscribe "zod" "app" "/path")), .arrive ((body log).take 80),
      .breakOff "reset", .read, .read, .other .awaken, .opened 0, .arrive (body log), .finish,
      .read, .read, .read]
    log.Pairwise (·.number < ·.number) ∧ ({} : Reader).allowsAll 3 log ms = true ∧
      (({} : Reader).run 3 ms).accepted = [first.event, second.event] ∧
      ((({} : Reader).run 3 ms).session.state.subscriptions.mailbox 0).notices =
        [.diff (.string "\u00e4"), .diff (.string "\u20ac")] := by
  intro first second log ms
  have hlog : log.Pairwise (·.number < ·.number) := by
    simp [log, first, second]
  have hms : ({} : Reader).allowsAll 3 log ms = true := by decide +kernel
  obtain ⟨k, hk, haccepted, -, -, hpast, -⟩ := accepts_log_once 3 hlog hms
  have hbrought : ({ arrived := body log } : Transfer) ∈ (({} : Reader).run 3 ms).past := by
    decide +kernel
  have hlt : 1 < k :=
    hpast _ hbrought 1 ⟨Nat.zero_le 1, Nat.lt_succ_self 1, List.prefix_refl (body log)⟩
  obtain rfl : k = 2 := Nat.le_antisymm hk hlt
  exact ⟨hlog, hms, haccepted, by decide +kernel⟩

end Reader

end ShipBridge
