import ShipBridge.Proofs.Relay.Runs
import ShipBridge.Proofs.Session.Stopping

/-!
# The bridge after the end of its session

Once the session is closed the transport is asked for nothing else than to open the stream. Even
that is not asked for any more if the stream has been stopped. A caller that begins to send is
refused.
-/

namespace ShipBridge.Relay

open Session (Demand)

def Call.request? : Call → Option Session.Request
  | .poke ship app mark json _ => some (.poke ship app mark json)
  | .subscribe ship app path => some (.subscribe ship app path)
  | .unsubscribe subscription => some (.unsubscribe subscription)
  | _ => none

namespace Machine

variable {e : Surroundings} {m : Machine}

/-! ## What is asked of the transport -/

/-- Once the session is closed the transport is asked for nothing but openings of the stream. -/
theorem demanded_of_closed (hc : m.session.state.isClosed = true) (hs : List Happening) :
    ∃ asked, (m.run e hs).demanded = asked ++ m.demanded ∧
      ∀ d ∈ asked, ∃ resume, d = Demand.opening resume := by
  obtain ⟨as, -, has⟩ := m.run_front e hs
  refine ⟨_, has, fun d hd => ?_⟩
  exact Session.opening_of_mem_demands hc (List.mem_reverse.mp hd)

/-- Such an opening does follow if the session is closed before the job of the stream has run. -/
example :
    let e : Surroundings :=
      { settings := { ship := "zod" }, reconnect := {}, limit := 1000, correlate := toString }
    (({} : Machine).run e [.connect, .call 0 .close, .step 1, .step 0]).demanded =
      [.opening none, .discard] := rfl

/-- Once the stream has been stopped the transport is asked for nothing at all. -/
theorem demanded_of_stopped (h : m.session.Stopped) (hs : List Happening) :
    (m.run e hs).demanded = m.demanded := by
  obtain ⟨asked, hasked, hopening⟩ := demanded_of_closed (e := e) h.closed hs
  obtain ⟨as, -, has⟩ := m.run_front e hs
  cases asked with
  | nil => exact hasked
  | cons d asked =>
    exfalso
    obtain ⟨resume, rfl⟩ := hopening d List.mem_cons_self
    have heq := List.append_cancel_right (hasked.symm.trans has)
    have hmem : Demand.opening resume ∈ m.session.demands e.reconnect.maxAttempts as :=
      List.mem_reverse.mp (heq ▸ List.mem_cons_self)
    exact h.opening_notMem_demands as resume hmem

theorem call?_of_closed (hc : m.session.state.isClosed = true) (j : Nat) (r : Session.Request) :
    m.call? j r = none := by
  rw [call?, Session.call?_of_closed hc]
  rfl

end Machine

end ShipBridge.Relay
