import ShipBridge.Proofs.Session.Run

/-!
# The ids of commands

A call that registers takes the next id, and its command stands on the line until the call ends.
The ids of the commands that have ended, followed by those of the commands on the line, ascend,
and all of them are below the next id. So no two calls end with the same id, and a command that
has ended never comes back.
-/

namespace ShipBridge

open Wire

namespace Session

/-- The calls on the line, the one to which it is granted first. -/
def Line.errands : Line → List Errand
  | .free => []
  | .granted e waiting | .sending e _ _ waiting => e :: waiting

def Errand.id? (e : Errand) : Option Nat := e.freight.command?.bind Command.id?

def Line.ids (l : Line) : List Nat := l.errands.filterMap Errand.id?

@[simp] theorem Line.errands_push (l : Line) (e : Errand) :
    (l.push e).errands = l.errands ++ [e] := by
  cases l <;> rfl

@[simp] theorem Line.errands_pass (w : List Errand) : (Line.pass w).errands = w := by
  cases w <;> rfl

/-- Actions that neither put a call on the line nor move the line on. -/
def Action.isQuiet : Action → Bool
  | .call .. | .callAcknowledge _ | .proceed | .settle _ => false
  | _ => true

/-- The id that a call takes. -/
def allotted? (s : Session) : Action → Option Nat
  | .call .. => if s.state.isClosed then none else some s.state.nextId
  | _ => none

def endedId? (s : Session) (a : Action) : Option Nat := (s.concluded? a).bind (·.1.id?)

def endedIds (tr : List (Session × Action)) : List Nat := tr.filterMap fun m => m.1.endedId? m.2

variable {n : Nat} {s : Session}

theorem act_line_of_quiet {a : Action} (h : a.isQuiet = true) : (s.act n a).line = s.line := by
  cases a with
  | connect => exact connect_line
  | close => exact tearDown_line _
  | awaken => exact awaken_line
  | opened => exact opened_line
  | halt => exact halt_line
  | receive e => rw [act_receive_eq]
  | fail =>
    simp only [act, fail?]
    split
    · exact retry?_line _
    · exact retry?_line _
    · rfl
  | forget id => rfl
  | dropPoke t => rfl
  | dropSubscription t => rfl
  | _ => cases h

theorem endedId?_of_quiet {a : Action} (h : a.isQuiet = true) : s.endedId? a = none := by
  cases a <;> first | rfl | cases h

theorem allotted?_of_quiet {a : Action} (h : a.isQuiet = true) : s.allotted? a = none := by
  cases a <;> first | rfl | cases h

theorem act_call_of_closed (owner : Nat) (r : Request) (h : s.state.isClosed = true) :
    s.act n (.call owner r) = s := by
  cases r <;> simp [act, call?, State.register?, h]

def Request.command (id : Nat) : Request → Command
  | .poke ship app mark json => .poke id ship app mark json
  | .subscribe ship app path => .subscribe id ship app path
  | .unsubscribe subscription => .unsubscribe id subscription

@[simp] theorem Request.id?_command (id : Nat) (r : Request) : (r.command id).id? = some id := by
  cases r <;> rfl

theorem act_call_line (owner : Nat) (r : Request) (h : s.state.isClosed = false) :
    (s.act n (.call owner r)).line = s.line.push ⟨owner, .command (r.command s.state.nextId)⟩ := by
  cases r <;> simp [act, call?, State.register?, h, State.allocate, Request.command]

theorem act_call_nextId (owner : Nat) (r : Request) (h : s.state.isClosed = false) :
    (s.act n (.call owner r)).state.nextId = s.state.nextId + 1 := by
  cases r <;> simp [act, call?, State.register?, h, State.allocate]

theorem act_proceed_line {e : Errand} {w : List Errand} (hl : s.line = .granted e w) :
    (s.act n .proceed).line.errands =
      if s.state.isClosed || s.state.isIdle e.freight then w else e :: w := by
  cases hc : s.state.isClosed with
  | true => simp [act_proceed_of_closed hl hc]
  | false =>
    cases hi : s.state.isIdle e.freight with
    | true => simp [act_proceed_of_idle hl hc hi]
    | false => simp [act_proceed_of_busy hl hc hi, Line.errands]

theorem conclude_line (f : Freight) (a : Answer) : (s.conclude f a).line = s.line := by
  cases f <;> cases a <;> first | rfl | exact connect_line

theorem act_settle_line {e : Errand} {b : List Command} {d : Option Advance} {w : List Errand}
    (hl : s.line = .sending e b d w) (a : Answer) : (s.act n (.settle a)).line = .pass w := by
  cases a with
  | ok => rw [act_settle_ok hl, conclude_line]
  | error f => rw [act_settle_error hl]

theorem filterMap_id?_cons (e : Errand) (w : List Errand) :
    (e :: w).filterMap Errand.id? = e.id?.toList ++ w.filterMap Errand.id? := by
  cases he : e.id? <;> simp [he]

/-- What leaves the line with an action, followed by what the line holds then, is what the line
held before, followed by what joins it. -/
theorem ids_act (a : Action) : (s.endedId? a).toList ++ (s.act n a).line.ids =
    s.line.ids ++ (s.allotted? a).toList := by
  cases hq : a.isQuiet with
  | true =>
    rw [act_line_of_quiet hq, endedId?_of_quiet hq, allotted?_of_quiet hq]
    simp
  | false =>
    cases a with
    | call owner r =>
      cases hc : s.state.isClosed with
      | true => simp [act_call_of_closed owner r hc, endedId?, concluded?, allotted?, hc]
      | false =>
        simp [act_call_line owner r hc, Line.ids, endedId?, concluded?, allotted?, hc, Errand.id?,
          Freight.command?]
    | callAcknowledge owner =>
      simp [act, callAcknowledge, Line.ids, Errand.id?, Freight.command?, endedId?, concluded?,
        allotted?]
    | proceed =>
      cases hl : s.line with
      | granted e w =>
        rw [Line.ids, act_proceed_line hl, Line.ids, Line.errands]
        cases hc : s.state.isClosed with
        | true =>
          have hi : s.endedId? .proceed = e.id? := by
            cases hf : e.freight <;>
              simp [endedId?, concluded?, hl, hc, hf, Freight.command?, Errand.id?]
          simp [hi, allotted?, filterMap_id?_cons]
        | false =>
          have hi : s.endedId? .proceed = none := by simp [endedId?, concluded?, hl, hc]
          cases hf : e.freight with
          | command c => simp [hi, allotted?, State.isIdle]
          | acknowledgment =>
            have he : e.id? = none := by simp [Errand.id?, hf, Freight.command?]
            split_ifs <;> simp [hi, he, allotted?]
      | _ => simp [act_proceed_of_not_granted, endedId?, concluded?, allotted?, hl, Line.granted?]
    | settle a =>
      cases hl : s.line with
      | sending e b d w =>
        have hi : s.endedId? (.settle a) = e.id? := by
          cases hf : e.freight <;> simp [endedId?, concluded?, hl, hf, Freight.command?, Errand.id?]
        rw [Line.ids, act_settle_line hl, Line.errands_pass, hi, Line.ids, Line.errands,
          filterMap_id?_cons]
        simp [allotted?]
      | _ => simp [act_settle_of_not_sending, endedId?, concluded?, allotted?, hl, Line.sending?]
    | _ => cases hq

theorem act_nextId (a : Action) :
    (s.act n a).state.nextId = s.state.nextId + (s.allotted? a).toList.length := by
  cases a with
  | call owner r =>
    cases hc : s.state.isClosed with
    | true => simp [act_call_of_closed owner r hc, allotted?, hc]
    | false => simp [act_call_nextId owner r hc, allotted?, hc]
  | _ => exact (act_keeps _).nextId (by simp)

/-- The ids that have ended, followed by those on the line, ascend and are below the next id. -/
structure Numbered (s : Session) (ended : List Nat) : Prop where
  ascending : (ended ++ s.line.ids).Pairwise (· < ·)
  below : ∀ i ∈ ended ++ s.line.ids, i < s.state.nextId

theorem Numbered.act {ended : List Nat} (h : s.Numbered ended) (a : Action) :
    (s.act n a).Numbered (ended ++ (s.endedId? a).toList) := by
  have hids : ended ++ (s.endedId? a).toList ++ (s.act n a).line.ids =
      ended ++ s.line.ids ++ (s.allotted? a).toList := by
    rw [List.append_assoc, ids_act, List.append_assoc]
  have hnew : ∀ j ∈ (s.allotted? a).toList, j = s.state.nextId := by
    intro j hj
    cases a <;> simp_all [allotted?]
  refine ⟨?_, ?_⟩
  · rw [hids, List.pairwise_append]
    refine ⟨h.ascending, ?_, ?_⟩
    · cases s.allotted? a <;> simp
    · intro i hi j hj
      rw [hnew j hj]
      exact h.below i hi
  · intro i hi
    rw [hids] at hi
    rw [act_nextId]
    rcases List.mem_append.mp hi with hi | hi
    · have hlt := h.below i hi
      omega
    · have heq := hnew i hi
      have hpos := List.length_pos_of_mem hi
      omega

theorem endedIds_cons (a : Action) (tr : List (Session × Action)) :
    endedIds ((s, a) :: tr) = (s.endedId? a).toList ++ endedIds tr := by
  cases h : s.endedId? a <;> simp [endedIds, h]

theorem Numbered.run {ended : List Nat} (h : s.Numbered ended) (as : List Action) :
    (run n s as).Numbered (ended ++ endedIds (trail n s as)) := by
  induction as generalizing s ended with
  | nil => simpa [Session.run, trail, endedIds] using h
  | cons a as ih =>
    have hn := ih (h.act (n := n) a)
    rwa [List.append_assoc, ← endedIds_cons] at hn

theorem numbered_initial : ({} : Session).Numbered [] :=
  ⟨List.Pairwise.nil, by simp [Line.ids, Line.errands]⟩

theorem eq_of_nodup_filterMap {α β : Type} {f : α → Option β} {l : List α}
    (h : (l.filterMap f).Nodup) {x y : α} {b : β} (hx : x ∈ l) (hy : y ∈ l) (hfx : f x = some b)
    (hfy : f y = some b) : x = y := by
  induction l with
  | nil => cases hx
  | cons z l ih =>
    have hrest : (l.filterMap f).Nodup := by
      cases hz : f z with
      | none => rwa [List.filterMap_cons_none hz] at h
      | some c => exact (List.nodup_cons.mp (List.filterMap_cons_some hz ▸ h)).2
    have key {w : α} (hw : w ∈ l) (hfw : f w = some b) (hfz : f z = some b) : False := by
      rw [List.filterMap_cons_some hfz] at h
      exact (List.nodup_cons.mp h).1 (List.mem_filterMap.mpr ⟨w, hw, hfw⟩)
    rcases List.mem_cons.mp hx with rfl | hxl
    · rcases List.mem_cons.mp hy with rfl | hyl
      · rfl
      · exact (key hyl hfy hfx).elim
    · rcases List.mem_cons.mp hy with rfl | hyl
      · exact (key hxl hfx hfy).elim
      · exact ih hrest hxl hyl

/-- A command's call ends once. -/
theorem ends_once (as bs : List Action) {m m' : Session × Action} {id : Nat}
    (hm : m ∈ trail n (run n {} as) bs) (hm' : m' ∈ trail n (run n {} as) bs)
    (h : m.1.endedId? m.2 = some id) (h' : m'.1.endedId? m'.2 = some id) : m = m' := by
  have hn := ((numbered_initial.run (n := n) as).run (n := n) bs).ascending
  have hd : (endedIds (trail n (run n {} as) bs)).Nodup :=
    ((List.pairwise_append.mp (List.pairwise_append.mp hn).1).2.1).imp (fun h => Nat.ne_of_lt h)
  exact eq_of_nodup_filterMap hd hm hm' h h'

theorem mem_errands_act {a : Action} {e : Errand} (h : e ∈ (s.act n a).line.errands) :
    e ∈ s.line.errands ∨ e.freight = .acknowledgment ∨
      ∃ r : Request, e.freight = .command (r.command s.state.nextId) := by
  cases hq : a.isQuiet with
  | true =>
    rw [act_line_of_quiet hq] at h
    exact .inl h
  | false =>
    cases a with
    | call owner r =>
      cases hc : s.state.isClosed with
      | true => exact .inl (act_call_of_closed owner r hc ▸ h)
      | false =>
        rw [act_call_line owner r hc, Line.errands_push, List.mem_append, List.mem_singleton] at h
        rcases h with h | rfl
        · exact .inl h
        · exact .inr (.inr ⟨r, rfl⟩)
    | callAcknowledge owner =>
      rw [act, callAcknowledge, Line.errands_push, List.mem_append, List.mem_singleton] at h
      rcases h with h | rfl
      · exact .inl h
      · exact .inr (.inl rfl)
    | proceed =>
      cases hl : s.line with
      | granted f w =>
        rw [act_proceed_line hl] at h
        split_ifs at h
        · exact .inl (List.mem_cons_of_mem f h)
        · exact .inl h
      | _ =>
        rw [act_proceed_of_not_granted (by rw [hl]; rfl), hl] at h
        exact .inl h
    | settle a =>
      cases hl : s.line with
      | sending f b d w =>
        rw [act_settle_line hl, Line.errands_pass] at h
        exact .inl (List.mem_cons_of_mem f h)
      | _ =>
        rw [act_settle_of_not_sending _ (by rw [hl]; rfl), hl] at h
        exact .inl h
    | _ => cases hq

/-- Every command on the line has an id. -/
def Named (s : Session) : Prop :=
  ∀ e ∈ s.line.errands, ∀ c, e.freight = .command c → c.id?.isSome = true

theorem Named.act (h : s.Named) (a : Action) : (s.act n a).Named := by
  intro e he c hc
  rcases mem_errands_act he with he | he | ⟨r, he⟩
  · exact h e he c hc
  · rw [hc] at he
    cases he
  · rw [hc] at he
    obtain rfl := Freight.command.inj he
    simp

end Session

end ShipBridge
