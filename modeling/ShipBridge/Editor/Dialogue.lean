import ShipBridge.Editor.Framing
import ShipBridge.Editor.Message

/-!
# What an editor says

Each body that the editor sends calls for one turn: a request or a notification is handed on, a
response is passed over, and a body that is no message gets a complaint. The notification `exit`
is handed on and ends the conversation.
-/

namespace ShipBridge.Editor

inductive Turn where
  | request (id : Json) (method : String) (params : Option Json)
  | notification (method : String) (params : Option Json)
  | passed
  | unreadable (f : Json.Fault)
deriving DecidableEq

def Turn.ofBody (body : List UInt8) : Turn :=
  match Message.ofBytes body with
  | .ok (.request r) => .request r.id r.method r.params
  | .ok (.notification n) => .notification n.method n.params
  | .ok (.response _) => .passed
  | .error f => .unreadable f

def Turn.isExit : Turn → Bool
  | .notification method _ => method == "exit"
  | _ => false

/-- The turns up to and including the first that ends the conversation. -/
def untilExit : List Turn → List Turn
  | [] => []
  | t :: ts => if t.isExit then [t] else t :: untilExit ts

/-- A whole conversation: its turns, and the flaw that broke it off, if one did. An exit comes
before any later flaw. -/
def conversation (limit : Nat) (input : List UInt8) : List Turn × Option Framing.Flaw :=
  let (bodies, ending) := Framing.frames limit input
  let turns := bodies.map Turn.ofBody
  (untilExit turns, match ending with
    | .clean => none
    | .flawed f => if turns.any Turn.isExit then none else some f)

def Turn.replies (handle : Turn → List Message) : Turn → List Message
  | .unreadable f => [.unreadable f]
  | .passed => []
  | t => handle t

end ShipBridge.Editor
