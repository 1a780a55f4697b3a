import ShipBridge.Proofs.Relay.Machine

/-!
# Runs of the bridge

A job of the bridge runs a little further, a caller asks for something, what the bridge has asked
of the ship comes about, the editor writes or hangs up, or time passes: each of these is a
happening, and any list of happenings is a run. The trail of a run pairs each happening with the
bridge that it met. The session of the bridge is led on by at most one action each time, so a run
of the bridge contains a run of the session, and has asked the transport for what that demands.
-/

namespace ShipBridge.Relay

open Session (Answer)

inductive Happening where
  | step (j : Nat)
  | call (caller : Nat) (c : Call)
  | delivered (a : Answer)
  | reached (a : Answer)
  | discarded (a : Answer)
  | arrived (items : List EventStream.Item)
  | ended
  | wrote (bytes : List UInt8)
  | inputEnded
  | hungUp
  | passed (millis : Nat)
  | updated (json : Json)
  | connect
  | forget (id : Nat)
  | dropPoke (ticket : Nat)
  | dropSubscription (ticket : Nat)

namespace Machine

variable (e : Surroundings) (m : Machine)

def after : Happening → Machine
  | .step j => m.step e j
  | .call caller c => m.spawn (.start caller c)
  | .delivered a => { m with delivered := some a }
  | .reached a => { m with reached := some a }
  | .discarded a => { m with discarded := some a }
  | .arrived items => { m with items := m.items ++ items }
  | .ended => { m with streamEnded := true }
  | .wrote bytes => { m with input := m.input ++ bytes }
  | .inputEnded => { m with inputEnded := true }
  | .hungUp => { m with outlet := .dropped }
  | .passed millis => { m with now := m.now + millis }
  | .updated json => m.route json
  | .connect => m.withSession m.session.connect
  | .forget id => { m with session := (m.session.forget id).2 }
  | .dropPoke ticket => { m with session := m.session.act 0 (.dropPoke ticket) }
  | .dropSubscription ticket => { m with session := m.session.act 0 (.dropSubscription ticket) }

def run (hs : List Happening) : Machine := hs.foldl (after e) m

def trail : Machine → List Happening → List (Machine × Happening)
  | _, [] => []
  | m, h :: hs => (m, h) :: trail (m.after e h) hs

theorem run_append (hs ks : List Happening) : m.run e (hs ++ ks) = (m.run e hs).run e ks :=
  List.foldl_append

theorem trail_append (hs ks : List Happening) :
    trail e m (hs ++ ks) = trail e m hs ++ trail e (m.run e hs) ks := by
  induction hs generalizing m with
  | nil => rfl
  | cons h hs ih => exact congrArg ((m, h) :: ·) (ih (m.after e h))

theorem run_induction {e : Surroundings} {m : Machine} {P : Machine → Prop} (hm : P m)
    (hafter : ∀ m h, P m → P (m.after e h)) (hs : List Happening) : P (m.run e hs) := by
  induction hs generalizing m with
  | nil => exact hm
  | cons h hs ih => exact ih (hafter m h hm)

theorem mem_of_mem_trail {e : Surroundings} {m : Machine} {hs : List Happening}
    {q : Machine × Happening} (hq : q ∈ trail e m hs) : q.2 ∈ hs := by
  induction hs generalizing m with
  | nil => cases hq
  | cons h hs ih =>
    rcases List.mem_cons.mp hq with rfl | hq
    · exact List.mem_cons_self
    · exact List.mem_cons_of_mem h (ih hq)

/-- A happening takes at most one action of the session, and the transport is asked for what that
demands. -/
theorem after_takes (h : Happening) :
    m.Takes e.reconnect.maxAttempts (m.after e h) := by
  cases h with
  | step j => exact m.step_takes e j
  | updated json => exact .inl (m.route_front json)
  | connect => exact takes_of_act .connect rfl (m.withSession_front _)
  | forget id => exact takes_of_act (.forget id) rfl rfl
  | dropPoke ticket => exact takes_of_act (.dropPoke ticket) rfl rfl
  | dropSubscription ticket => exact takes_of_act (.dropSubscription ticket) rfl rfl
  | _ => exact .refl

theorem run_takes (hs : List Happening) : ∃ as : List Session.Action,
    (m.run e hs).front = as.foldl (Session.Front.act e.reconnect.maxAttempts) m.front := by
  induction hs generalizing m with
  | nil => exact ⟨[], rfl⟩
  | cons h hs ih =>
    obtain ⟨as, has⟩ := ih (m.after e h)
    rcases m.after_takes e h with hstill | ⟨a, ha⟩
    · exact ⟨as, has.trans (by rw [hstill])⟩
    · exact ⟨a :: as, has.trans (by rw [ha]; rfl)⟩

/-- The session of the bridge is led through a run, and the transport has been asked for what the
actions of that run demand. -/
theorem run_front (hs : List Happening) : ∃ as : List Session.Action,
    (m.run e hs).session = m.session.run e.reconnect.maxAttempts as ∧
    (m.run e hs).demanded =
      (m.session.demands e.reconnect.maxAttempts as).reverse ++ m.demanded := by
  obtain ⟨as, has⟩ := m.run_takes e hs
  rw [Session.Front.foldl_act] at has
  exact ⟨as, congrArg Session.Front.session has, congrArg Session.Front.demanded has⟩

end Machine

end ShipBridge.Relay
