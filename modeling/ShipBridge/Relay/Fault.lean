import ShipBridge.Session.Fault
import ShipBridge.Editor.Framing
import ShipBridge.Editor.Message

/-!
# What a request to the bridge can fail with

A fault of the session, a refusal by the language server on the ship, or a fault of the bridge's
own: no answer in time, a lost subscription, or an editor that breaks the framing rules. Each has
the code under which it is reported to the editor.
-/

namespace ShipBridge.Relay

inductive Fault where
  | session (f : Session.Fault)
  | requestTimeout (method : String) (after : Duration)
  | remote (code : Int) (message : String) (data : Option Json)
  | subscriptionLost
  | protocol (message : String)
  | messageTooLarge (size limit : Nat)
  | json (message : String)
  | io (message : String)
deriving DecidableEq, Inhabited

namespace Fault

def message : Fault → String
  | .session f => s!"Channel error: {f.message}"
  | .requestTimeout method after => s!"Request {method} got no answer within {after.text}"
  | .remote _ message _ => message
  | .subscriptionLost => "Subscription to the ship was lost"
  | .protocol m => s!"Protocol error: {m}"
  | .messageTooLarge size limit => s!"Message of {size} bytes exceeds limit of {limit}"
  | .json m => s!"JSON error: {m}"
  | .io m => s!"IO error: {m}"

def code : Fault → Int
  | .remote code _ _ => code
  | .session (.pokeFailed _ _) => -32001
  | .session .closed | .subscriptionLost => -32002
  | .requestTimeout _ _ => -32003
  | .session _ => -32000
  | .json _ => -32700
  | .protocol _ | .messageTooLarge _ _ => -32600
  | .io _ => -32603

def data? : Fault → Option Json
  | .remote _ _ data => data
  | _ => none

open Editor in
def ofFlaw (f : Framing.Flaw) : Fault :=
  match f with
  | .tooLarge size limit => .messageTooLarge size limit
  | .notText _ _ | .bodyCutShort => .io f.message
  | .malformedHeader _ | .invalidLength _ | .noLength | .endInHeader => .protocol f.message

end Fault

def respond (id : Json) : Except Fault Json → Editor.Message
  | .ok result => .success id result
  | .error f => .failure id f.code f.message f.data?

end ShipBridge.Relay
