import ShipBridge.Duration

/-!
# What can go wrong between the client and a ship

Failures of the transport, refusals reported by the ship, and the end of the session itself. Each
cause has one wording, and `retryable` says which of them another attempt may cure.
-/

namespace ShipBridge.Session

inductive Fault where
  | network (message : String)
  | timeout (after : Duration)
  | http (url : String) (status : Nat) (body : String)
  | eventStream (message : String)
  | json (message : String)
  | io (message : String)
  | pokeFailed (id : Nat) (message : String)
  | invalidResponse (id : Nat)
  | closed
  | auth (message : String)
  | config (message : String)
deriving DecidableEq, Repr, Inhabited

def Fault.message : Fault → String
  | .network m => s!"Network error: {m}"
  | .timeout d => s!"Request timeout after {d.text}"
  | .http url status body => s!"HTTP {status} from {url}: {body}"
  | .eventStream m => s!"Event stream error: {m}"
  | .json m => s!"JSON error: {m}"
  | .io m => s!"IO error: {m}"
  | .pokeFailed id m => s!"Poke {id} failed: {m}"
  | .invalidResponse id => s!"Invalid poke response for {id}"
  | .closed => "Channel closed"
  | .auth m => s!"Login failed: {m}"
  | .config m => s!"Configuration error: {m}"

def Fault.retryable : Fault → Bool
  | .network _ | .timeout _ | .eventStream _ => true
  | .http _ status _ => 500 ≤ status
  | _ => false

end ShipBridge.Session
