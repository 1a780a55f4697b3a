import ShipBridge.Proofs.Editor.Framing
import ShipBridge.Proofs.Relay.Spoken
import ShipBridge.Proofs.Session.Closing

/-!
# Messages of the editor leave in the order of their arrival

While the session is open, each message that calls for a poke makes the bridge queue one, and reads
no further until something has become of it. So at every moment what has been put on its way for a
conversation, followed by what still waits for its turn, is what has been called for by the messages
read so far, in the same order: a batch that fails to arrive takes no other with it, and whatever
else the bridge sends goes in between. What has been read is the first part of what the editor has
written, up to the first exit, and all of it when there is nothing left to do.
-/

namespace ShipBridge.Editor

theorem untilExit_append (ts us : List Turn) : untilExit (ts ++ us) =
    if ts.any Turn.isExit then untilExit ts else ts ++ untilExit us := by
  induction ts with
  | nil => rfl
  | cons t ts ih =>
    rw [List.cons_append, untilExit, untilExit, List.any_cons]
    cases t.isExit with
    | true => rfl
    | false =>
      rw [Bool.false_or, ih]
      simp only [Bool.false_eq_true, if_false]
      split_ifs <;> rfl

theorem untilExit_concat {ts : List Turn} (h : ts.any Turn.isExit = false)
    (t : Turn) : untilExit (ts ++ [t]) = ts ++ [t] := by
  rw [untilExit_append, h]
  simp only [untilExit, Bool.false_eq_true, if_false, ite_self]

end ShipBridge.Editor

namespace ShipBridge.Relay

open Wire (Command)

def Task.lasts : Task → Bool
  | .start _ .converse | .converse _ => true
  | .sending p => p.resumed.isSome
  | _ => false

def turnsOf (bodies : List (List UInt8)) : List Editor.Turn := bodies.map .ofBody

def Happening.written : Happening → List UInt8
  | .wrote bytes => bytes
  | _ => []

def Happening.converses : Happening → Bool
  | .call _ .converse => true
  | _ => false

def written (hs : List Happening) : List UInt8 := hs.flatMap Happening.written

/-- The editor writes these bodies, in pieces of any size and maybe not yet to the end. Its input
ends only after them. -/
structure Writes (bodies : List (List UInt8)) (hs : List Happening) : Prop where
  part : written hs <+: bodies.flatMap Editor.Framing.write
  ended : ∀ ks, ks ++ [.inputEnded] <+: hs → written ks = bodies.flatMap Editor.Framing.write

theorem Writes.before {bodies : List (List UInt8)} {hs : List Happening} {h : Happening}
    (hw : Writes bodies (hs ++ [h])) : Writes bodies hs where
  part := by
    refine List.IsPrefix.trans ?_ hw.part
    rw [written, written, List.flatMap_append]
    exact List.prefix_append _ _
  ended ks hk := hw.ended ks (hk.trans (List.prefix_append _ _))

/-- Each body is a message, and none is too large. -/
structure Readable (e : Surroundings) (bodies : List (List UInt8)) : Prop where
  limit : e.limit ≤ Numeral.maxU64
  size : ∀ body ∈ bodies, body.length ≤ e.limit
  message : ∀ body ∈ bodies, ∃ message, Editor.Message.ofBytes body = .ok message

theorem Readable.turn_ne {e : Surroundings} {bodies : List (List UInt8)} (hb : Readable e bodies)
    {body : List UInt8} (h : body ∈ bodies) (f : Json.Fault) :
    Editor.Turn.ofBody body ≠ .unreadable f := by
  obtain ⟨message, hm⟩ := hb.message body h
  rw [Editor.Turn.ofBody, hm]
  cases message <;> nofun

theorem written_append (hs : List Happening) (h : Happening) :
    written (hs ++ [h]) = written hs ++ h.written := by
  simp [written]

theorem Task.talks_of_lasts {t : Task} (h : t.lasts = true) : t.talks = true := by
  cases t with
  | start caller c => cases c <;> first | rfl | cases h
  | sending p =>
    cases p with
    | notification source method envelope id ticket => cases source <;> first | rfl | cases h
    | request origin f => cases origin <;> first | rfl | cases h
    | _ => cases h
  | converse conversation => rfl
  | _ => cases h

theorem Task.lasts_of_resumed {p : Purpose} {t : Task} (h : p.resumed = some t) :
    t.lasts = true := by
  cases p with
  | notification source method envelope id ticket =>
    cases source with
    | caller n => cases h
    | editor conversation =>
      simp only [Purpose.resumed, Source.next] at h
      split_ifs at h
      rw [← Option.some.inj h]
      rfl
  | request origin f =>
    cases origin with
    | caller n => cases h
    | editor conversation id =>
      rw [← Option.some.inj h]
      rfl
  | _ => cases h

namespace Machine

variable {e : Surroundings} {m m' : Machine} {i j : Nat} {t : Task}

/-- The messages that the bridge reads, in this order. -/
def heard (e : Surroundings) (tr : List (Machine × Happening)) : List Hearing :=
  tr.filterMap fun q => q.1.hearing? e q.2

/-- The commands that are put on their way for a conversation, in this order. -/
def spoken (e : Surroundings) (tr : List (Machine × Happening)) : List Command :=
  tr.flatMap fun q => q.1.spokenBy e q.2

/-- A request that is forwarded has an entry as soon as it has been read. -/
def Enters (e : Surroundings) (m : Machine) (h : Happening) : Prop :=
  ∀ body id method params, m.hears? e h = some body →
    Editor.Turn.ofBody body = .request id method params → method ≠ handshakeMethod →
      ((m.after e h).pending.entries.lookup (m.nextKey e)).isSome = true

/-- There is nothing to do for the conversation: it is over, or waits for input. -/
def Rests (e : Surroundings) (m : Machine) : Prop :=
  ∀ j t, (j, t) ∈ m.jobs → t.talks = true →
    (∃ conversation, t = .converse conversation) ∧ m.readyTask e j t = false

/-! ## The course of a conversation -/

/-- How far a conversation has come: who talks, what has been read of what the editor has written,
and whether the conversation goes on. -/
structure Course (bodies : List (List UInt8)) (hs : List Happening)
    (heard : List (List UInt8)) (m : Machine) : Prop where
  sole : ∀ i k t u, m.books.does i t → m.books.does k u → t.talks = true → u.talks = true → i = k
  early : hs.countP Happening.converses = 0 →
    (∀ i t, m.books.does i t → t.talks = false) ∧ heard = []
  read : written hs = heard.flatMap Editor.Framing.write ++ m.input
  ended : m.inputEnded = true → written hs = bodies.flatMap Editor.Framing.write
  part : heard <+: bodies
  turns : Editor.untilExit (turnsOf heard) = turnsOf heard
  lasting : ∀ i t, m.books.does i t → t.lasts = true →
    (turnsOf heard).any Editor.Turn.isExit = false
  done : 0 < hs.countP Happening.converses → (∀ i t, m.books.does i t → t.lasts = false) →
    (turnsOf heard).any Editor.Turn.isExit = true ∨ heard = bodies

section Course

variable {bodies heard new : List (List UInt8)} {hs : List Happening} {h : Happening}

theorem Course.initial (bodies : List (List UInt8)) : Course bodies [] [] {} where
  sole _ _ _ _ hd := absurd hd.1 List.not_mem_nil
  early _ := ⟨fun _ _ hd => absurd hd.1 List.not_mem_nil, rfl⟩
  read := rfl
  ended := nofun
  part := List.nil_prefix
  turns := rfl
  lasting _ _ hd := absurd hd.1 List.not_mem_nil
  done := nofun

/-- What is still to be read is the first part of the bodies that have not been read. -/
theorem Course.ahead (hc : Course bodies hs heard m) (hw : Writes bodies hs) :
    ∃ later more, bodies = heard ++ later ∧
      m.input ++ more = later.flatMap Editor.Framing.write ∧
      (written hs = bodies.flatMap Editor.Framing.write → more = []) := by
  obtain ⟨later, hlater⟩ := hc.part
  obtain ⟨more, hmore⟩ := hw.part
  refine ⟨later, more, hlater.symm, ?_, fun hall => ?_⟩
  · rw [hc.read, ← hlater, List.flatMap_append, List.append_assoc] at hmore
    exact List.append_cancel_left hmore
  · rw [hall] at hmore
    exact List.append_right_eq_self.mp hmore

/-- When the job that talks does not go on, an exit has been read, or everything has. -/
theorem Course.done_own (hc : Course bodies hs heard m)
    (htalks : ∃ t, m.books.does j t ∧ t.talks = true)
    (hover : ∀ t, m.books.does j t → t.lasts = false) :
    (turnsOf heard).any Editor.Turn.isExit = true ∨ heard = bodies := by
  obtain ⟨t, ht, htalks⟩ := htalks
  refine hc.done (Nat.pos_of_ne_zero fun hnone => ?_) fun i u hu => ?_
  · have hquiet := (hc.early hnone).1 j t ht
    rw [htalks] at hquiet
    cases hquiet
  · cases hlasts : u.lasts with
    | false => rfl
    | true =>
      obtain rfl := hc.sole i j u t hu ht (Task.talks_of_lasts hlasts) htalks
      rw [hover u hu] at hlasts
      cases hlasts

theorem Course.outside (hc : Course bodies hs heard m) (hw : Writes bodies (hs ++ [h]))
    (hquiet : h.converses = false)
    (htalks : ∀ i t, t.talks = true → (m'.books.does i t ↔ m.books.does i t))
    (hinput : m'.input = m.input ++ h.written)
    (hended : m'.inputEnded = true → m.inputEnded = true ∨ h = .inputEnded) :
    Course bodies (hs ++ [h]) heard m' := by
  have hcount : (hs ++ [h]).countP Happening.converses = hs.countP Happening.converses := by
    simp [hquiet]
  have hlasts {i : Nat} {t : Task} (ht : t.lasts = true) :
      m'.books.does i t ↔ m.books.does i t := htalks i t (Task.talks_of_lasts ht)
  refine ⟨?_, fun hnone => ?_, ?_, fun hend => ?_, hc.part, hc.turns, ?_, fun hpos hover => ?_⟩
  · intro i k t u ht hu htt hut
    exact hc.sole i k t u ((htalks i t htt).mp ht) ((htalks k u hut).mp hu) htt hut
  · obtain ⟨hnobody, hheard⟩ := hc.early (hcount ▸ hnone)
    refine ⟨fun i t ht => ?_, hheard⟩
    cases htt : t.talks with
    | false => rfl
    | true => exact absurd (hnobody i t ((htalks i t htt).mp ht)) (by rw [htt]; nofun)
  · rw [written_append, hc.read, hinput, List.append_assoc]
  · rcases hended hend with hend | rfl
    · have hall : written hs = bodies.flatMap Editor.Framing.write := hc.ended hend
      have hpart := hw.part
      rw [written_append, hall] at hpart ⊢
      obtain ⟨more, hmore⟩ := hpart
      rw [List.append_assoc] at hmore
      rw [(List.append_eq_nil_iff.mp (List.append_right_eq_self.mp hmore)).1, List.append_nil]
    · rw [written_append, hw.ended hs List.prefix_rfl]
      exact List.append_nil _
  · exact fun i t ht hl => hc.lasting i t ((hlasts hl).mp ht) hl
  · refine hc.done (hcount ▸ hpos) fun i t ht => ?_
    cases hl : t.lasts with
    | false => rfl
    | true => exact absurd (hover i t ((hlasts hl).mpr ht)) (by rw [hl]; nofun)

theorem Course.turn (hc : Course bodies hs heard m) (hd : Deed e j m m')
    (htalks : ∃ t, m.books.does j t ∧ t.talks = true) (hended : m'.inputEnded = m.inputEnded)
    (hread : m.input = new.flatMap Editor.Framing.write ++ m'.input)
    (hheard : heard ++ new <+: bodies)
    (hturns : Editor.untilExit (turnsOf (heard ++ new)) = turnsOf (heard ++ new))
    (hlasting : ∀ t, m'.books.does j t → t.lasts = true →
      (turnsOf (heard ++ new)).any Editor.Turn.isExit = false)
    (hover : (∀ t, m'.books.does j t → t.lasts = false) →
      (turnsOf (heard ++ new)).any Editor.Turn.isExit = true ∨ heard ++ new = bodies) :
    Course bodies (hs ++ [.step j]) (heard ++ new) m' := by
  obtain ⟨t, ht, htalk⟩ := htalks
  have hwritten : written (hs ++ [.step j]) = written hs :=
    (written_append hs (.step j)).trans (List.append_nil _)
  have hcount : (hs ++ [Happening.step j]).countP Happening.converses =
      hs.countP Happening.converses := by
    simp [Happening.converses]
  have hown (i : Nat) (u : Task) (hu : m'.books.does i u) (hut : u.talks = true) : i = j := by
    by_contra hi
    exact hi (hc.sole i j u t ((hd.talks_other hi hut).mp hu) ht hut htalk)
  refine ⟨?_, fun hnone => ?_, ?_, fun hend => ?_, hheard, hturns, ?_, fun _ hall => ?_⟩
  · intro i k u v hu hv hut hvt
    rw [hown i u hu hut, hown k v hv hvt]
  · have hquiet := (hc.early (hcount ▸ hnone)).1 j t ht
    rw [htalk] at hquiet
    cases hquiet
  · rw [hwritten, hc.read, hread, List.flatMap_append, List.append_assoc]
  · rw [hwritten]
    exact hc.ended (hended ▸ hend)
  · intro i u hu hl
    obtain rfl := hown i u hu (Task.talks_of_lasts hl)
    exact hlasting u hu hl
  · exact hover fun u hu => hall j u hu

theorem Deed.inputEnded (hd : Deed e j m m') : m'.inputEnded = m.inputEnded := by
  cases hd <;> rename_i eq <;> exact congrArg Books.inputEnded eq

theorem Course.scan (hc : Course bodies hs heard m) (hw : Writes bodies hs)
    (hb : Readable e bodies) :
    (Editor.Framing.scan e.limit m.inputEnded m.input = .waiting ∧
      (written hs = bodies.flatMap Editor.Framing.write → heard = bodies)) ∨
    (Editor.Framing.scan e.limit m.inputEnded m.input = .ended ∧ heard = bodies) ∨
    ∃ body rest later, Editor.Framing.scan e.limit m.inputEnded m.input = .frame body rest ∧
      m.input = Editor.Framing.write body ++ rest ∧ bodies = heard ++ body :: later := by
  obtain ⟨later, more, hlater, hahead, hdone⟩ := hc.ahead hw
  have hsize : ∀ body ∈ later, body.length ≤ e.limit := fun body hbody =>
    hb.size body (hlater ▸ List.mem_append_right _ hbody)
  have hall (hnone : later = []) : heard = bodies := by rw [hlater, hnone, List.append_nil]
  rcases Editor.Framing.scan_part hb.limit hsize hahead fun hend => hdone (hc.ended hend) with
    ⟨hwaits, hrest⟩ | ⟨hend, hnone⟩ | ⟨body, rest, later', hframe, hfront, hnext⟩
  · exact .inl ⟨hwaits, fun hwritten => hall (hrest (hdone hwritten))⟩
  · exact .inr (.inl ⟨hend, hall hnone⟩)
  · exact .inr (.inr ⟨body, rest, later', hframe, hfront, by rw [hlater, hnext]⟩)

section Turn

/-! A step of the job that talks either reads nothing, or takes one body off the front. -/

variable (hc : Course bodies hs heard m) (hd : Deed e j m m')
  (htalks : ∃ t, m.books.does j t ∧ t.talks = true)

include hc hd htalks

theorem Course.deaf (hinput : m'.input = m.input)
    (hlasting : ∀ t, m'.books.does j t → t.lasts = true →
      (turnsOf heard).any Editor.Turn.isExit = false)
    (hover : (∀ t, m'.books.does j t → t.lasts = false) →
      (turnsOf heard).any Editor.Turn.isExit = true ∨ heard = bodies) :
    Course bodies (hs ++ [.step j]) heard m' := by
  have hread : m.input = [].flatMap Editor.Framing.write ++ m'.input := hinput.symm
  have hturn := hc.turn hd htalks hd.inputEnded hread
  rw [List.append_nil] at hturn
  exact hturn hc.part hc.turns hlasting hover

theorem Course.unmoved (hinput : m'.input = m.input)
    (hsame : ∀ t, m'.books.does j t ↔ m.books.does j t) :
    Course bodies (hs ++ [.step j]) heard m' :=
  hc.deaf hd htalks hinput (fun t ht hl => hc.lasting j t ((hsame t).mp ht) hl) fun hall =>
    hc.done_own htalks fun t ht => hall t ((hsame t).mpr ht)

theorem Course.reads (hw : Writes bodies hs) (hb : Readable e bodies) {conversation : Nat}
    {body rest : List UInt8} (hown : m.books.does j (.converse conversation))
    (hframe : Editor.Framing.scan e.limit m.inputEnded m.input = .frame body rest)
    (hinput : m'.input = rest)
    (hnext : body ∈ bodies → ∃ t, t.lasts = !(Editor.Turn.ofBody body).isExit ∧
      ∀ u, m'.books.does j u ↔ u = t) :
    Course bodies (hs ++ [.step j]) (heard ++ [body]) m' := by
  rcases hc.scan hw hb with ⟨hwaits, -⟩ | ⟨hend, -⟩ | ⟨body', rest', later, hfound, hfront, hall⟩
  · rw [hframe] at hwaits
    cases hwaits
  · rw [hframe] at hend
    cases hend
  · obtain ⟨rfl, rfl⟩ := Editor.Framing.Scan.frame.inj (hframe.symm.trans hfound)
    have hnone := hc.lasting j _ hown rfl
    have hturns : turnsOf (heard ++ [body]) = turnsOf heard ++ [.ofBody body] := by
      simp [turnsOf]
    have hany : (turnsOf (heard ++ [body])).any Editor.Turn.isExit =
        (Editor.Turn.ofBody body).isExit := by
      rw [hturns, List.any_append, hnone]
      simp
    obtain ⟨t, hlasts, hsole⟩ := hnext (by rw [hall]; simp)
    refine hc.turn hd htalks hd.inputEnded ?_ ⟨later, ?_⟩ ?_ ?_ ?_
    · rw [hinput, hfront]
      simp
    · rw [hall]
      simp
    · rw [hturns, Editor.untilExit_concat hnone]
    · intro u hu hl
      rw [(hsole u).mp hu, hlasts] at hl
      rw [hany]
      simpa using hl
    · intro hover
      have hl := hover t ((hsole t).mpr rfl)
      rw [hlasts] at hl
      rw [hany]
      exact .inl (by simpa using hl)

end Turn

theorem Course.talk (hc : Course bodies hs heard m) (hw : Writes bodies hs)
    (hb : Readable e bodies) (hn : m.Numbered) (htalks : (m.own j).any Task.talks = true)
    (h : Talk e j m (m.step e j)) :
    Course bodies (hs ++ [.step j]) (heard ++ (m.hears? e (.step j)).toList) (m.step e j) := by
  have hd := step_deed (e := e) hn j
  have hdoes {t : Task} (hown : m.own j = some t) : m.books.does j t := hn.does_iff.mpr hown
  have htalk : ∃ t, m.books.does j t ∧ t.talks = true := by
    obtain ⟨hsome, ht⟩ := (Option.any_eq_true_iff_get ..).mp htalks
    exact ⟨_, hdoes (Option.some_get hsome).symm, ht⟩
  have hnext {b : Books} {next : Option Task} (heq : (m.step e j).books = b.next j next)
      (u : Task) : (m.step e j).books.does j u ↔ next = some u := by
    rw [heq]
    simp [Books.next]
  have hdeaf (hnone : m.hears? e (.step j) = none)
      (hafter : Course bodies (hs ++ [.step j]) heard (m.step e j)) :
      Course bodies (hs ++ [.step j]) (heard ++ (m.hears? e (.step j)).toList) (m.step e j) := by
    rw [hnone, Option.toList_none, List.append_nil]
    exact hafter
  cases h with
  | waits deaf eq =>
    exact hdeaf deaf (hc.unmoved hd htalk (congrArg Books.input eq) fun t => by rw [eq])
  | puts p batch s own inline granted send eq =>
    exact hdeaf (by simp [hears?, task?_of_own own])
      (hc.unmoved hd htalk (congrArg Books.input eq) fun t => by rw [eq])
  | begins c own eq =>
    refine hdeaf (by simp [hears?, task?_of_own own]) (hc.deaf hd htalk (congrArg Books.input eq)
      (fun _ _ _ => hc.lasting j _ (hdoes own) rfl) fun hall => ?_)
    have hlasts := hall _ ((hnext eq _).mpr rfl)
    cases hlasts
  | calls c body rest r receipt s p q issued own scan poke call inline resumed entered eq =>
    have hhears : m.hears? e (.step j) = some body := by simp [hears?, task?_of_own own, scan]
    rw [hhears]
    refine hc.reads hd htalk hw hb (hdoes own) scan (congrArg Books.input eq) fun _ =>
      ⟨.sending p, ?_, fun u => (hnext eq u).trans ?_⟩
    · rw [Task.lasts, resumed]
      cases (Editor.Turn.ofBody body).isExit <;> rfl
    · rw [Option.some.injEq, eq_comm]
  | passes c body rest next own scan poke plain goes eq =>
    have hhears : m.hears? e (.step j) = some body := by simp [hears?, task?_of_own own, scan]
    rw [hhears]
    refine hc.reads hd htalk hw hb (hdoes own) scan (congrArg Books.input eq) fun hbody => ?_
    obtain rfl | ⟨-, f, hf⟩ := goes
    · refine ⟨.converse c, by rw [plain]; rfl, fun u => (hnext eq u).trans ?_⟩
      rw [Option.some.injEq, eq_comm]
    · exact absurd hf (hb.turn_ne hbody f)
  | leaves c own finished eq =>
    have hnone : m.hears? e (.step j) = none := by
      rcases finished with h | ⟨f, h⟩ <;> simp [hears?, task?_of_own own, h]
    refine hdeaf hnone
      (hc.deaf hd htalk (congrArg Books.input eq) (fun t ht => ?_) fun _ => .inr ?_)
    · cases (hnext eq t).mp ht
    · rcases hc.scan hw hb with ⟨hwaits, -⟩ | ⟨-, hall⟩ | ⟨body, rest, later, hframe, -⟩
      · rcases finished with h | ⟨f, h⟩ <;> simp [h] at hwaits
      · exact hall
      · rcases finished with h | ⟨f, h⟩ <;> simp [h] at hframe
  | ends p a s q held new own inline sending settle plain eq =>
    have hafter (t : Task) : (m.step e j).books.does j t ↔
        p.resumed = some t ∨ new = some (j, t) := by
      rw [eq]
      simp [Books.also, Books.next]
    refine hdeaf (by simp [hears?, task?_of_own own]) (hc.deaf hd htalk (congrArg Books.input eq)
      (fun t ht hl => ?_) fun hall => hc.done_own htalk fun t ht => ?_)
    · rcases (hafter t).mp ht with hresumed | hnew
      · exact hc.lasting j _ (hdoes own) (by rw [Task.lasts, hresumed]; rfl)
      · exact Bool.noConfusion ((Task.talks_of_lasts hl).symm.trans (plain _ hnew).2)
    · obtain rfl : t = .sending p := Option.some.inj ((hn.does_iff.mp ht).symm.trans own)
      cases hresumed : p.resumed with
      | none => rw [Task.lasts, hresumed]; rfl
      | some u =>
        have hl := hall u ((hafter u).mpr (.inl hresumed))
        rw [Task.lasts_of_resumed hresumed] at hl
        cases hl

theorem Course.aside (hc : Course bodies hs heard m) (hw : Writes bodies (hs ++ [.step j]))
    (hn : m.Numbered) (htalks : (m.own j).any Task.talks = false) :
    Course bodies (hs ++ [.step j]) heard (m.step e j) := by
  have hd := step_deed (e := e) hn j
  obtain ⟨hinput, hquiet⟩ := hd.aside hn htalks
  refine hc.outside hw rfl (fun i t ht => ?_) (hinput.trans (List.append_nil _).symm)
    fun hend => .inl (hd.inputEnded ▸ hend)
  by_cases hi : i = j
  · subst hi
    refine iff_of_false (fun hafter => ?_) fun hbefore => ?_
    · exact Bool.noConfusion (ht.symm.trans (hquiet t hafter))
    · rw [hn.does_iff.mp hbefore, Option.any_some, ht] at htalks
      cases htalks
  · exact hd.talks_other hi ht

theorem Course.call (hc : Course bodies hs heard m) (n : Nat)
    (hcalls : (hs ++ [Happening.call n .converse]).countP Happening.converses ≤ 1) :
    Course bodies (hs ++ [.call n .converse]) heard (m.after e (.call n .converse)) := by
  have hcount : (hs ++ [Happening.call n .converse]).countP Happening.converses =
      hs.countP Happening.converses + 1 := by
    simp [Happening.converses]
  obtain ⟨hnobody, rfl⟩ := hc.early (by omega)
  have hdoes (i : Nat) (t : Task) : (m.after e (.call n .converse)).books.does i t ↔
      m.books.does i t ∨ (i, t) = (m.born, .start n .converse) := by
    rw [(books_call m n .converse).1]
    refine or_congr_right ⟨And.left, fun h => ⟨h, ?_⟩⟩
    rw [(Prod.mk.inj h).2]
    rfl
  have hborn (i : Nat) (t : Task) (ht : (m.after e (.call n .converse)).books.does i t)
      (htalk : t.talks = true) : i = m.born := by
    rcases (hdoes i t).mp ht with hold | hnew
    · exact Bool.noConfusion (htalk.symm.trans (hnobody i t hold))
    · exact (Prod.mk.inj hnew).1
  have hwritten : written (hs ++ [.call n .converse]) = written hs :=
    (written_append hs _).trans (List.append_nil _)
  refine ⟨?_, fun hnone => ?_, hwritten.trans hc.read, fun hend => hwritten.trans (hc.ended hend),
    hc.part, hc.turns, fun _ _ _ _ => rfl, fun _ hover => ?_⟩
  · intro i k t u ht hu htalk hutalk
    rw [hborn i t ht htalk, hborn k u hu hutalk]
  · omega
  · have hlasts := hover m.born (.start n .converse) ((hdoes _ _).mpr (.inr rfl))
    cases hlasts

end Course

/-! ## Runs -/

section Runs

variable {bodies : List (List UInt8)} {hs : List Happening} {h : Happening}

theorem after_input (hstep : ∀ j, h ≠ .step j) : (m.after e h).input = m.input ++ h.written ∧
    ((m.after e h).inputEnded = true → m.inputEnded = true ∨ h = .inputEnded) := by
  have hsame {m' : Machine} {s : Session} {p : Pending}
      (heq : m'.books = { m.books with session := s, pending := p }) :
      m'.input = m.input ++ [] ∧ (m'.inputEnded = true → m.inputEnded = true ∨ h = .inputEnded) :=
    ⟨(congrArg Books.input heq).trans (List.append_nil _).symm,
      fun hend => .inl ((congrArg Books.inputEnded heq).symm.trans hend)⟩
  cases h with
  | step j => exact absurd rfl (hstep j)
  | wrote bytes => exact ⟨rfl, .inl⟩
  | inputEnded => exact ⟨(List.append_nil _).symm, fun _ => .inr rfl⟩
  | updated json =>
    obtain ⟨p, hp, -⟩ := m.route_pending (e := e) json
    exact hsame (s := m.session) (p := p) hp
  | connect => exact hsame (p := m.pending) (m.books_withSession _)
  | _ => exact ⟨(List.append_nil _).symm, .inl⟩

theorem Course.after {heard : List (List UInt8)} (hc : Course bodies hs heard m)
    (hw : Writes bodies (hs ++ [h])) (hb : Readable e bodies) (ho : m.Orderly)
    (hl : ∀ i, m.books.Lined i) (hopen : m.session.state.isClosed = false)
    (hcalls : (hs ++ [h]).countP Happening.converses ≤ 1) :
    Course bodies (hs ++ [h]) (heard ++ (m.hears? e h).toList) (m.after e h) := by
  have hdeaf (hnone : m.hears? e h = none)
      (hafter : Course bodies (hs ++ [h]) heard (m.after e h)) :
      Course bodies (hs ++ [h]) (heard ++ (m.hears? e h).toList) (m.after e h) := by
    rw [hnone, Option.toList_none, List.append_nil]
    exact hafter
  by_cases hstep : ∃ j, h = .step j
  · obtain ⟨j, rfl⟩ := hstep
    cases htalks : (m.own j).any Task.talks with
    | true =>
      exact hc.talk hw.before hb ho.numbered htalks (step_talk ho.numbered (hl j) hopen htalks)
    | false => exact hdeaf (hears?_of_quiet htalks) (hc.aside hw ho.numbered htalks)
  have hnone : m.hears? e h = none := by
    cases h with
    | step j => exact absurd ⟨j, rfl⟩ hstep
    | _ => rfl
  obtain ⟨hinput, hended⟩ := after_input (m := m) (e := e) fun j hj => hstep ⟨j, hj⟩
  refine hdeaf hnone ?_
  by_cases hcall : ∃ n c, h = .call n c
  · obtain ⟨n, c, rfl⟩ := hcall
    cases hquiet : (Happening.call n c).converses with
    | true =>
      cases c with
      | converse => exact hc.call n hcalls
      | _ => cases hquiet
    | false =>
      refine hc.outside hw hquiet (fun i t ht => ?_) hinput hended
      rw [(books_call m n c).1]
      refine ⟨fun h => h.resolve_right ?_, .inl⟩
      rintro ⟨heq, -⟩
      obtain ⟨-, rfl⟩ := Prod.mk.inj heq
      cases c with
      | converse => cases hquiet
      | _ => cases ht
  · have hout := after_outside m (e := e) (fun j hj => hstep ⟨j, hj⟩)
      fun n c hc => hcall ⟨n, c, hc⟩
    refine hc.outside hw ?_ (fun i t _ => by rw [hout.does]) hinput hended
    cases h with
    | call n c => exact absurd ⟨n, c, rfl⟩ hcall
    | _ => rfl

theorem enters_after (ho : m.Orderly) (hl : ∀ i, m.books.Lined i)
    (hopen : m.session.state.isClosed = false) (h : Happening) : Enters e m h := by
  intro body id method params hhears hturn hmethod
  cases h with
  | step j =>
    cases htalks : (m.own j).any Task.talks with
    | false =>
      rw [hears?_of_quiet htalks] at hhears
      cases hhears
    | true =>
      have hread {conversation : Nat} {body' rest : List UInt8}
          (own : m.own j = some (.converse conversation))
          (scan : Editor.Framing.scan e.limit m.inputEnded m.input = .frame body' rest) :
          body' = body := by
        simpa [hears?, task?_of_own own, scan] using hhears
      cases step_talk ho.numbered (hl j) hopen htalks with
      | calls c body' rest r receipt s p q issued own scan poke call inline resumed entered eq =>
        obtain rfl := hread own scan
        have hpending : (m.after e (.step j)).pending = q := congrArg Books.pending eq
        rw [hpending, entered id method params hturn]
        rfl
      | passes c body' rest next own scan poke plain goes eq =>
        obtain rfl := hread own scan
        rw [hturn, pokeFor?, if_neg hmethod] at poke
        cases poke
      | waits deaf eq =>
        rw [deaf] at hhears
        cases hhears
      | begins c own eq => simp [hears?, task?_of_own own] at hhears
      | leaves c own finished eq =>
        rcases finished with h | ⟨f, h⟩ <;> simp [hears?, task?_of_own own, h] at hhears
      | puts p batch s own => simp [hears?, task?_of_own own] at hhears
      | ends p a s q held new own => simp [hears?, task?_of_own own] at hhears
  | _ => cases hhears

/-- How a run stands to what the editor has written. -/
structure Follows (e : Surroundings) (bodies : List (List UInt8)) (hs : List Happening) : Prop where
  order : spoken e (trail e {} hs) ++ (run e {} hs).queued =
    (heard e (trail e {} hs)).filterMap (Hearing.command? e)
  course : Course bodies hs ((heard e (trail e {} hs)).map Hearing.body) (run e {} hs)
  enters : ∀ q ∈ trail e {} hs, Enters e q.1 q.2

theorem open_before {m : Machine} (h : Happening)
    (hopen : (m.after e h).session.state.isClosed = false) :
    m.session.state.isClosed = false := by
  cases hc : m.session.state.isClosed with
  | false => rfl
  | true =>
    rcases (m.after_takes e h).stepsTo with hs | ⟨a, hs⟩
    · rw [hs, hc] at hopen
      cases hopen
    · rw [hs, Session.isClosed_act hc a] at hopen
      cases hopen

theorem orderly_run (hs : List Happening) : (run e {} hs).Orderly :=
  run_induction orderly_initial (fun _ h hu => hu.after h) hs

theorem follows_run (hb : Readable e bodies) (hw : Writes bodies hs)
    (hcalls : hs.countP Happening.converses ≤ 1)
    (hopen : (run e {} hs).session.state.isClosed = false) : Follows e bodies hs := by
  induction hs using List.reverseRecOn with
  | nil => exact ⟨rfl, .initial bodies, fun q hq => absurd hq List.not_mem_nil⟩
  | append_singleton hs h ih =>
    rw [run_append] at hopen
    have hbefore : (run e {} hs).session.state.isClosed = false := open_before h hopen
    have hcount : hs.countP Happening.converses ≤ 1 :=
      (List.Sublist.countP_le (List.sublist_append_left hs [h])).trans hcalls
    have hf := ih hw.before hcount hbefore
    have ho := orderly_run (e := e) hs
    have hl := lined_run (e := e) hs
    have htrail : trail e {} (hs ++ [h]) = trail e {} hs ++ [(run e {} hs, h)] :=
      trail_append e {} hs [h]
    have hheard : heard e (trail e {} (hs ++ [h])) =
        heard e (trail e {} hs) ++ ((run e {} hs).hearing? e h).toList := by
      rw [htrail, heard, List.filterMap_append, heard]
      cases hx : (run e {} hs).hearing? e h <;> simp [hx]
    have hrun : run e {} (hs ++ [h]) = (run e {} hs).after e h := run_append e {} hs [h]
    refine ⟨?_, ?_, ?_⟩
    · have hstep := spoken_after (e := e) ho hl hbefore h
      have hspoken : spoken e (trail e {} (hs ++ [h])) =
          spoken e (trail e {} hs) ++ (run e {} hs).spokenBy e h := by
        rw [htrail]
        simp [spoken]
      rw [hspoken, hrun, List.append_assoc, hstep, ← List.append_assoc, hf.order, hheard,
        List.filterMap_append, calledBy]
      cases (run e {} hs).hearing? e h with
      | none => rfl
      | some x => cases hx : x.command? e <;> simp [hx]
    · have hcourse := hf.course.after hw hb ho hl hbefore hcalls
      have hbody : ((run e {} hs).hearing? e h).toList.map Hearing.body =
          ((run e {} hs).hears? e h).toList := by
        rw [hearing?]
        cases (run e {} hs).hears? e h <;> rfl
      rwa [hheard, List.map_append, hbody, hrun]
    · rw [htrail]
      intro q hq
      rcases List.mem_append.mp hq with hold | hnew
      · exact hf.enters q hold
      · rw [List.mem_singleton.mp hnew]
        exact enters_after ho hl hbefore h

/-- One command at most waits: the job that talks has no other on the line. -/
theorem Course.length_queued {heard : List (List UInt8)} (hc : Course bodies hs heard m)
    (hn : m.Numbered) (hl : ∀ i, m.books.Lined i) : m.queued.length ≤ 1 := by
  refine (List.length_filterMap_le _ _).trans ?_
  by_cases hsome : ∃ j, m.speaks j = true
  · obtain ⟨j, hj⟩ := hsome
    obtain ⟨p, hp, hinline⟩ := (speaks_iff hn).mp hj
    obtain ⟨f, -, hf, -⟩ := errand_inline hn (hl j) (hn.does_iff.mp hp) hinline
    have howner (i : Nat) (hi : m.speaks i = true) : i = j := by
      obtain ⟨q, hq, hinline'⟩ := (speaks_iff hn).mp hi
      exact hc.sole i j _ _ hq hp hinline' hinline
    have hsub : (m.session.line.queue.filter fun r => m.speaks r.owner).Sublist
        (m.session.line.errandsOf j) := by
      refine (List.monotone_filter_right _ fun r hr => ?_).trans
        (m.session.line.queue_sublist.filter _)
      simpa using howner _ hr
    have hlength := hsub.length_le
    rwa [hf] at hlength
  · have hnone : (m.session.line.queue.filter fun r => m.speaks r.owner) = [] :=
      List.filter_eq_nil_iff.mpr fun r _ hr => hsome ⟨_, hr⟩
    rw [hnone]
    exact Nat.zero_le 1

/-- When there is nothing to do for the conversation nothing waits. -/
theorem Rests.queued (hr : m.Rests e) (hn : m.Numbered) : m.queued = [] := by
  have hnone : (m.session.line.queue.filter fun r => m.speaks r.owner) = [] := by
    refine List.filter_eq_nil_iff.mpr fun r _ hspeaks => ?_
    obtain ⟨p, hp, hinline⟩ := (speaks_iff hn).mp hspeaks
    obtain ⟨⟨c, hc⟩, -⟩ := hr _ _ hp.1 hinline
    cases hc
  rw [Machine.queued, hnone]
  rfl

/-- When there is nothing to do for the conversation an exit has been read, or everything has. -/
theorem Course.rests {heard : List (List UInt8)} (hc : Course bodies hs heard m)
    (hw : Writes bodies hs) (hb : Readable e bodies) (hr : m.Rests e)
    (hbegun : 0 < hs.countP Happening.converses)
    (hall : written hs = bodies.flatMap Editor.Framing.write) :
    (turnsOf heard).any Editor.Turn.isExit = true ∨ heard = bodies := by
  by_cases hlasts : ∃ i t, m.books.does i t ∧ t.lasts = true
  · obtain ⟨i, t, ht, hl⟩ := hlasts
    obtain ⟨⟨c, rfl⟩, hready⟩ := hr i t ht.1 (Task.talks_of_lasts hl)
    have hwaits : Editor.Framing.scan e.limit m.inputEnded m.input = .waiting := by
      simpa [readyTask] using hready
    rcases hc.scan hw hb with ⟨-, hdone⟩ | ⟨hend, -⟩ | ⟨body, rest, later, hframe, -⟩
    · exact .inr (hdone hall)
    · rw [hwaits] at hend
      cases hend
    · rw [hwaits] at hframe
      cases hframe
  · refine hc.done hbegun fun i t ht => ?_
    cases hl : t.lasts with
    | false => rfl
    | true => exact absurd ⟨i, t, ht, hl⟩ hlasts

/-- Let the editor write messages, in pieces of any size, to the one conversation that the bridge is
called for, and let the session be open. However the ship answers, whatever becomes of each batch
and whatever else is going on: what has been put on its way for the conversation, followed by one
command at most that waits for its turn, is what the messages read so far call for, one by one and
in their order. These messages are the first ones that the editor has written, up to the first exit.
A request that is forwarded has an entry under the correlation id that its poke carries, from the
moment at which it is read. When all has been written and there is nothing to do for the
conversation, all messages have been read, up to the first exit, and nothing waits. -/
theorem messages_leave_in_order (hb : Readable e bodies) (hw : Writes bodies hs)
    (hcalls : hs.countP Happening.converses ≤ 1)
    (hopen : (run e {} hs).session.state.isClosed = false) :
    spoken e (trail e {} hs) ++ (run e {} hs).queued =
      (heard e (trail e {} hs)).filterMap (Hearing.command? e) ∧
    (run e {} hs).queued.length ≤ 1 ∧
    turnsOf ((heard e (trail e {} hs)).map Hearing.body) <+: Editor.untilExit (turnsOf bodies) ∧
    (∀ q ∈ trail e {} hs, Enters e q.1 q.2) ∧
    (0 < hs.countP Happening.converses → written hs = bodies.flatMap Editor.Framing.write →
      (run e {} hs).Rests e →
        spoken e (trail e {} hs) = (heard e (trail e {} hs)).filterMap (Hearing.command? e) ∧
        turnsOf ((heard e (trail e {} hs)).map Hearing.body) =
          Editor.untilExit (turnsOf bodies)) := by
  have hf := follows_run hb hw hcalls hopen
  have hn := (orderly_run (e := e) hs).numbered
  obtain ⟨later, hlater⟩ := hf.course.part
  have hturns : Editor.untilExit (turnsOf bodies) =
      if (turnsOf ((heard e (trail e {} hs)).map Hearing.body)).any Editor.Turn.isExit then
        turnsOf ((heard e (trail e {} hs)).map Hearing.body)
      else turnsOf ((heard e (trail e {} hs)).map Hearing.body) ++
        Editor.untilExit (turnsOf later) := by
    have hsplit : turnsOf bodies =
        turnsOf ((heard e (trail e {} hs)).map Hearing.body) ++ turnsOf later := by
      rw [← hlater]
      exact List.map_append
    rw [hsplit, Editor.untilExit_append, hf.course.turns]
  refine ⟨hf.order, hf.course.length_queued hn (lined_run hs), ?_, hf.enters, ?_⟩
  · rw [hturns]
    split_ifs
    · exact List.prefix_rfl
    · exact List.prefix_append _ _
  · intro hbegun hall hr
    have horder := hf.order
    rw [hr.queued hn, List.append_nil] at horder
    refine ⟨horder, ?_⟩
    rcases hf.course.rests hw hb hr hbegun hall with hexit | hread
    · rw [hturns, if_pos hexit]
    · rw [← hread] at hlater ⊢
      exact hf.course.turns.symm

end Runs

/-- The first of these messages is lost with its batch, the second is kept from the ship, and the
exit leaves all the same; what comes after it is not read. -/
theorem messages_leave_in_order_past_loss :
    let e : Surroundings := { settings := { ship := "zod" }, reconnect := {}, limit := 1000
                              correlate := fun n => String.ofList (List.replicate n 'x') }
    let bodies := [
      "\x7b\"jsonrpc\":\"2.0\",\"id\":7,\"method\":\"hover\"\x7d",
      "\x7b\"jsonrpc\":\"2.0\",\"id\":8,\"method\":\"initialize\"\x7d",
      "\x7b\"jsonrpc\":\"2.0\",\"method\":\"exit\"\x7d",
      "\x7b\"jsonrpc\":\"2.0\",\"method\":\"late\"\x7d"].map fun s => Utf8.encode s.toList
    let hs : List Happening := [.call 0 .converse, .step 0,
      .wrote (bodies.flatMap Editor.Framing.write), .step 0, .step 0,
      .delivered (.error (.network "reset")), .step 0, .step 0, .step 0, .step 0,
      .delivered (.ok ()), .step 0]
    Readable e bodies ∧ Writes bodies hs ∧ hs.countP Happening.converses = 1 ∧
      (run e {} hs).session.state.isClosed = false ∧ (run e {} hs).Rests e ∧
      turnsOf ((heard e (trail e {} hs)).map Hearing.body) = Editor.untilExit (turnsOf bodies) ∧
      spoken e (trail e {} hs) = (heard e (trail e {} hs)).filterMap (Hearing.command? e) ∧
      spoken e (trail e {} hs) = [
        .poke 1 "zod" "language-server" requestMark (.object [("id", .string "x"),
          ("jsonrpc", .string "2.0"), ("method", .string "hover"), ("params", .null)]),
        .poke 2 "zod" "language-server" notificationMark (.object
          [("jsonrpc", .string "2.0"), ("method", .string "exit"), ("params", .null)])] := by
  intro e bodies hs
  have hmessages : bodies.all (fun body => (Editor.Message.ofBytes body).isOk) = true := by
    decide +kernel
  have hb : Readable e bodies := by
    refine ⟨by decide, by decide +kernel, fun body hbody => ?_⟩
    have hok := List.all_eq_true.mp hmessages body hbody
    cases hm : Editor.Message.ofBytes body with
    | ok message => exact ⟨message, rfl⟩
    | error f =>
      rw [hm] at hok
      cases hok
  have hwritten : written hs = bodies.flatMap Editor.Framing.write := by
    simp [hs, written, Happening.written]
  have hw : Writes bodies hs := by
    refine ⟨hwritten ▸ List.prefix_rfl, fun ks hk => ?_⟩
    have hmem : Happening.inputEnded ∈ hs :=
      hk.subset (List.mem_append_right _ (List.mem_singleton_self _))
    simp [hs] at hmem
  have hcalls : hs.countP Happening.converses = 1 := by decide +kernel
  obtain ⟨hopen, hidle⟩ : (run e {} hs).session.state.isClosed = false ∧
      (run e {} hs).jobs.all (fun p => !p.2.talks) = true := by decide +kernel
  have hr : (run e {} hs).Rests e := by
    intro j t ht htalks
    have hquiet := List.all_eq_true.mp hidle (j, t) ht
    rw [htalks] at hquiet
    cases hquiet
  have hall := (messages_leave_in_order hb hw hcalls.le hopen).2.2.2.2
  obtain ⟨hspoken, hturns⟩ := hall (by rw [hcalls]; exact Nat.one_pos) hwritten hr
  exact ⟨hb, hw, hcalls, hopen, hr, hturns, hspoken, hspoken.trans (by decide +kernel)⟩

end Machine

end ShipBridge.Relay
