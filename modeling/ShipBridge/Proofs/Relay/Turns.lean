import ShipBridge.Proofs.Relay.LineErrands

/-!
# The steps of a conversation

The job that talks to the editor reads one message at a time. What has to be poked at the ship for
the message is called for at once, and the job reads on when its batch has been put on its way and
something has become of that, whatever it is. Nothing that another job does moves the conversation.
-/

namespace ShipBridge.Relay

open Session (Answer Receipt)
open Wire (Command)

/-- What has to be poked at the ship for a turn of the editor, where `key` is to be the correlation
id if it is a request. The handshake and the editor's own responses are kept from the ship. -/
def pokeFor? (e : Surroundings) (key : String) : Editor.Turn → Option Session.Request
  | .request _ method params =>
    if method = handshakeMethod then none
    else some (.poke e.settings.ship e.settings.app requestMark (.object [("id", .string key),
      ("jsonrpc", .string "2.0"), ("method", .string method), ("params", params.getD .null)]))
  | .notification method params =>
    some (.poke e.settings.ship e.settings.app notificationMark (.object
      [("jsonrpc", .string "2.0"), ("method", .string method), ("params", params.getD .null)]))
  | .passed | .unreadable _ => none

namespace Machine

variable {e : Surroundings} {m m' : Machine} {i j : Nat} {t : Task} {p : Purpose}

def nextKey (e : Surroundings) (m : Machine) : String := e.correlate (m.issued + 1)

def hears? (e : Surroundings) (m : Machine) : Happening → Option (List UInt8)
  | .step j => match m.task? j with
    | some (.converse _) => match Editor.Framing.scan e.limit m.inputEnded m.input with
      | .frame body _ => some body
      | _ => none
    | _ => none
  | _ => none

/-- A step of a job that talks to the editor, as long as the session is open. -/
inductive Talk (e : Surroundings) (j : Nat) (m m' : Machine) : Prop where
  | waits (deaf : m.hears? e (.step j) = none) (eq : m'.books = m.books)
  | begins (conversation : Nat) (own : m.own j = some (.start conversation .converse))
      (eq : m'.books = m.books.next j (some (.converse conversation)))
  | calls (conversation : Nat) (body rest : List UInt8) (r : Session.Request) (receipt : Receipt)
      (s : Session) (p : Purpose) (q : Pending) (issued : Nat)
      (own : m.own j = some (.converse conversation))
      (scan : Editor.Framing.scan e.limit m.inputEnded m.input = .frame body rest)
      (poke : pokeFor? e (m.nextKey e) (.ofBody body) = some r)
      (call : m.session.call? j r = some (receipt, s)) (inline : p.isInline = true)
      (resumed : p.resumed =
        if (Editor.Turn.ofBody body).isExit then none else some (.converse conversation))
      (entered : ∀ id method params, Editor.Turn.ofBody body = .request id method params →
        q.entries.lookup (m.nextKey e) = some m.pending.slots.length)
      (eq : m'.books = ({ m.books with session := s, pending := q, issued, input := rest } :
        Books).next j (some (.sending p)))
  | passes (conversation : Nat) (body rest : List UInt8) (next : Option Task)
      (own : m.own j = some (.converse conversation))
      (scan : Editor.Framing.scan e.limit m.inputEnded m.input = .frame body rest)
      (poke : pokeFor? e (m.nextKey e) (.ofBody body) = none)
      (plain : (Editor.Turn.ofBody body).isExit = false)
      (goes : next = some (.converse conversation) ∨
        next = none ∧ ∃ f, Editor.Turn.ofBody body = .unreadable f)
      (eq : m'.books = ({ m.books with input := rest } : Books).next j next)
  | leaves (conversation : Nat) (own : m.own j = some (.converse conversation))
      (finished : Editor.Framing.scan e.limit m.inputEnded m.input = .ended ∨
        ∃ f, Editor.Framing.scan e.limit m.inputEnded m.input = .flawed f)
      (eq : m'.books = m.books.next j none)
  | puts (p : Purpose) (batch : List Command) (s : Session) (own : m.own j = some (.sending p))
      (inline : p.isInline = true) (granted : m.session.line.granted? = some j)
      (send : m.session.proceed? = some (.send batch, s))
      (eq : m'.books = { m.books with session := s, puts := batch :: m.books.puts })
  | ends (p : Purpose) (a : Answer) (s : Session) (q : Pending) (held : List Holding)
      (new : Option (Nat × Task)) (own : m.own j = some (.sending p))
      (inline : p.isInline = true) (sending : m.session.line.sending? = some j)
      (settle : m.session.settle? a = some s)
      (plain : ∀ r, new = some r → r.2.purpose? = none ∧ r.2.talks = false)
      (eq : m'.books = (({ m.books with session := s, pending := q, held } : Books).next j
        p.resumed).also new)

/-! ## The way to a message and past it -/

theorem task?_of_own (h : m.own j = some t) : m.task? j = some t :=
  (Option.filter_eq_some_iff.mp h).1

/-- A job that sends something for a conversation has a command on the line, and nothing else. -/
theorem errand_inline (hn : m.Numbered) (hl : m.books.Lined j)
    (hown : m.own j = some (.sending p)) (hp : p.isInline = true) :
    ∃ f c, m.session.line.errandsOf j = [f] ∧ f.freight = .command c ∧ c.id?.isSome = true := by
  have hcare : ∃ c id, p.care? = some c ∧ c.poke? = some id := by
    cases p with
    | notification source method envelope id ticket => exact ⟨_, id, rfl, rfl⟩
    | request origin f => exact ⟨_, f.poke, rfl, rfl⟩
    | _ => cases hp
  obtain ⟨c, id, hc, hid⟩ := hcare
  obtain ⟨f, hf, hcarries⟩ := hl.one p (hn.does_iff.mpr hown)
  obtain ⟨ship, app, mark, json, hpoke⟩ := hcarries c id hc hid
  exact ⟨f, _, hf, hpoke, rfl⟩

theorem isExit_notification (method : String) (params : Option Json) :
    (Editor.Turn.notification method params).isExit = true ↔ method = exitMethod := by
  simp [Editor.Turn.isExit, exitMethod]

theorem talk_turn (hn : m.Numbered) (hopen : m.session.state.isClosed = false) {conversation : Nat}
    {body rest : List UInt8} (ht : m.task? j = some (.converse conversation))
    (hscan : Editor.Framing.scan e.limit m.inputEnded m.input = .frame body rest) :
    Talk e j m ({ m with input := rest }.stepTurn e j conversation (.ofBody body)) := by
  have hown : m.own j = some (.converse conversation) := own_of_task? ht rfl
  have hj : ∃ t, (j, t) ∈ m.jobs := ⟨_, mem_of_task? ht⟩
  have hsame : ({ m.books with input := rest } : Books).next j (some (.converse conversation)) =
      { m.books with input := rest } := by
    rw [← hown]
    exact congrArg (fun b : Books => { b with input := rest }) (hn.books_next_own j)
  have hpasses {m' : Machine} (hpoke : pokeFor? e (m.nextKey e) (.ofBody body) = none)
      (hplain : (Editor.Turn.ofBody body).isExit = false)
      (heq : m'.books = ({ m.books with input := rest } : Books).next j
        (some (.converse conversation))) : Talk e j m m' :=
    .passes conversation body rest _ hown hscan hpoke hplain (.inl rfl) heq
  cases hturn : Editor.Turn.ofBody body with
  | request id method params =>
    rcases request_books (e := e) (m := { m with input := rest }) hj (.editor conversation id)
      method params with ⟨hmethod, heq⟩ | ⟨hmethod, f, s, hs, hkey, -, heq⟩ | ⟨hclosed, -⟩
    · refine hpasses ?_ (by rw [hturn]; rfl) heq
      rw [hturn, pokeFor?, if_pos hmethod]
    · refine .calls conversation body rest _ _ s _ _ _ hown hscan ?_ hs rfl ?_ ?_ heq
      · rw [hturn, pokeFor?, if_neg hmethod]
        rfl
      · rw [hturn]
        rfl
      · intro id' method' params' _
        rw [hkey]
        simp [Pending.enter, nextKey]
    · rw [hopen] at hclosed
      cases hclosed
  | notification method params =>
    rcases notify_books (e := e) (m := { m with input := rest }) hj (.editor conversation) method
      params with ⟨id, ticket, s, hs, heq⟩ | ⟨hclosed, -⟩
    · refine .calls conversation body rest _ _ s _ m.pending m.issued hown hscan ?_ hs rfl ?_ ?_ heq
      · rw [hturn]
        rfl
      · rw [hturn]
        simp only [Purpose.resumed, Source.next, isExit_notification]
      · intro id' method' params' heq'
        rw [hturn] at heq'
        cases heq'
    · rw [hopen] at hclosed
      cases hclosed
  | passed => exact hpasses (by rw [hturn]; rfl) (by rw [hturn]; rfl) hsame.symm
  | unreadable f =>
    have hsend := books_send { m with input := rest } (.unreadable f)
    simp only [stepTurn]
    split
    · next v hv =>
      rw [hv] at hsend
      exact hpasses (by rw [hturn]; rfl) (by rw [hturn]; rfl) (hsend.trans hsame.symm)
    · next v hv =>
      rw [hv] at hsend
      refine .passes conversation body rest none hown hscan (by rw [hturn]; rfl)
        (by rw [hturn]; rfl) (.inr ⟨rfl, f, hturn⟩) ?_
      rw [books_finish, hsend]
      rfl

theorem talk_converse (hn : m.Numbered) (hopen : m.session.state.isClosed = false)
    {conversation : Nat} (ht : m.task? j = some (.converse conversation)) :
    Talk e j m (m.stepConverse e j conversation) := by
  have hown : m.own j = some (.converse conversation) := own_of_task? ht rfl
  unfold stepConverse
  split
  · next body rest hscan => exact talk_turn hn hopen ht hscan
  · next f hscan =>
    exact .leaves conversation hown (.inr ⟨f, hscan⟩) (m.books_finish j conversation _ none)
  · next hscan =>
    exact .leaves conversation hown (.inl hscan) (m.books_finish j conversation _ none)
  · next hscan => exact .waits (by simp [hears?, ht, hscan]) rfl

/-- What has been called for is put on its way and settled: an open session turns nothing away. -/
theorem talk_sending (hl : m.books.Lined j) (hopen : m.session.state.isClosed = false)
    (hn : m.Numbered) (hown : m.own j = some (.sending p)) (hp : p.isInline = true)
    (h : Deed e j m m') : Talk e j m m' := by
  have hsilent : (m.own j).bind Task.purpose? ≠ none := by
    rw [hown]
    nofun
  cases h with
  | stays eq => exact .waits (by simp [hears?, task?_of_own hown]) eq
  | puts q batch s own granted send eq =>
    obtain rfl := Task.sending.inj (Option.some.inj (hown.symm.trans own))
    exact .puts p batch s hown hp granted send eq
  | ends q a s next new held r own passes still plain hands failed fades talks resumes eq =>
    obtain rfl := Task.sending.inj (Option.some.inj (hown.symm.trans own))
    rcases passes with ⟨hgranted, hdone⟩ | ⟨hsending, hsettle⟩
    · obtain ⟨f, c, hf, hc, -⟩ := errand_inline hn hl hown hp
      obtain ⟨w, hline, -⟩ := Session.granted_of_sole hf hgranted
      rw [Session.proceed?_of_busy hline hopen (by rw [hc]; rfl)] at hdone
      cases hdone
    · exact .ends p a s r _ new hown hp hsending hsettle plain (resumes hp ▸ eq)
  | concludes origin f d v own slot eq =>
    rw [hown] at own
    cases own
  | _ => exact absurd ‹(m.own j).bind Task.purpose? = none› hsilent

theorem step_talk (hn : m.Numbered) (hl : m.books.Lined j)
    (hopen : m.session.state.isClosed = false) (htalks : (m.own j).any Task.talks = true) :
    Talk e j m (m.step e j) := by
  cases hown : m.own j with
  | none =>
    rw [hown] at htalks
    cases htalks
  | some t =>
    have ht := task?_of_own hown
    have hj : ∃ t, (j, t) ∈ m.jobs := ⟨t, mem_of_task? ht⟩
    rw [hown, Option.any_some] at htalks
    cases t with
    | start caller c =>
      cases c with
      | converse =>
        refine .begins caller hown ?_
        rw [step, ht]
        exact books_become hj rfl
      | _ => cases htalks
    | sending p => exact talk_sending hl hopen hn hown htalks (step_deed hn j)
    | converse conversation =>
      by_cases hready : m.readyTask e j (.converse conversation) = true
      · rw [step, ht]
        dsimp only
        rw [if_pos hready]
        exact talk_converse hn hopen ht
      · refine .waits ?_ ?_
        · have hscan : Editor.Framing.scan e.limit m.inputEnded m.input = .waiting := by
            simpa [readyTask] using hready
          simp [hears?, ht, hscan]
        · rw [step, ht]
          dsimp only
          rw [if_neg hready]
    | _ => cases htalks

/-! ## The others -/

/-- A job that does not talk to the editor reads nothing, and does not begin to talk. -/
theorem Deed.aside (hn : m.Numbered) (h : Deed e j m m')
    (hown : (m.own j).any Task.talks = false) :
    m'.input = m.input ∧ ∀ t, m'.books.does j t → t.talks = false := by
  have hnot {P : Prop} (htalks : P → (m.own j).any Task.talks = true) : ¬P := fun hp => by
    rw [htalks hp] at hown
    cases hown
  have hold {t : Task} (ht : m.books.does j t) : t.talks = false := by
    rw [hn.does_iff.mp ht] at hown
    exact hown
  have hnext {next : Option Task} {b : Books} (heq : m'.books = b.next j next)
      (htalks : ¬next.any Task.talks = true) {t : Task} (ht : m'.books.does j t) :
      t.talks = false := by
    rw [heq] at ht
    simp only [Books.next, if_true] at ht
    rw [ht] at htalks
    simpa using htalks
  have hinput (rest : List UInt8) (heq : m'.books.input = rest) (h : ¬rest ≠ m.input) :
      m'.input = m.input := heq.trans (not_not.mp h)
  cases h with
  | stays eq => exact ⟨congrArg Books.input eq, fun t ht => hold (eq ▸ ht)⟩
  | goesOn next s p issued input silent still care acts fades talks eq =>
    exact ⟨hinput input (congrArg Books.input eq) fun h => hnot talks (.inr h),
      fun t ht => hnext eq (fun h => hnot talks (.inl h)) ht⟩
  | calls r receipt s p input silent free call care talks eq =>
    exact ⟨hinput input (congrArg Books.input eq) fun h => hnot talks (.inr h),
      fun t ht => hnext eq (fun h => hnot talks (.inl h)) ht⟩
  | forwards r f s p input silent free call care key slot talks eq =>
    exact ⟨hinput input (congrArg Books.input eq) fun h => hnot talks (.inr h),
      fun t ht => hnext eq (fun h => hnot talks (.inl h)) ht⟩
  | acknowledges silent free eq =>
    exact ⟨congrArg Books.input eq, fun t ht => hnext eq Bool.false_ne_true ht⟩
  | puts p batch s own granted send eq =>
    exact ⟨congrArg Books.input eq, fun t ht => hold (by rwa [eq] at ht)⟩
  | ends p a s next new held q own passes still plain hands failed fades talks resumes eq =>
    refine ⟨congrArg Books.input eq, fun t ht => ?_⟩
    have hinline : ¬p.isInline = true := hnot fun hp => by rw [own]; exact hp
    rw [eq] at ht
    simp only [Books.also, Books.next, if_true] at ht
    rcases ht with rfl | hnew
    · simpa using fun h => hinline (talks h)
    · exact (plain _ hnew).2
  | settles c care plain silent outcome eq =>
    exact ⟨congrArg Books.input eq, fun t ht => hnext eq Bool.false_ne_true ht⟩
  | forgets c id care silent poke eq =>
    exact ⟨congrArg Books.input eq, fun t ht => hnext eq Bool.false_ne_true ht⟩
  | concludes origin f d v own slot eq =>
    exact ⟨congrArg Books.input eq, fun t ht => hnext eq Bool.false_ne_true ht⟩

theorem Deed.talks_other (h : Deed e j m m') (hi : i ≠ j) (ht : t.talks = true) :
    m'.books.does i t ↔ m.books.does i t := by
  refine ⟨fun hd => ((h.others hi).2 hd).resolve_right ?_, (h.others hi).1⟩
  rintro ⟨-, hnone⟩
  rw [hnone] at ht
  cases ht

theorem hears?_of_quiet (hown : (m.own j).any Task.talks = false) :
    m.hears? e (.step j) = none := by
  simp only [hears?]
  split
  · next c ht =>
    rw [own_of_task? ht rfl] at hown
    cases hown
  · rfl

end Machine

end ShipBridge.Relay
