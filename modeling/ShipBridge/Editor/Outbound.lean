import ShipBridge.Editor.Framing
import ShipBridge.Editor.Message

/-!
# The way out to the editor

Any number of handles put messages into one queue. A single task takes one message at a time off
the queue and writes it as a whole frame before it takes the next, so frames never interleave.
-/

namespace ShipBridge.Editor

def Message.bytes (m : Message) : List UInt8 := Utf8.encode m.text.toList

structure Outbound where
  queue : List Message := []
  written : List UInt8 := []

namespace Outbound

inductive Move where
  | send (handle : Nat) (m : Message)
  | write

def move (o : Outbound) : Move → Outbound
  | .send _ m => { o with queue := o.queue ++ [m] }
  | .write => match o.queue with
    | [] => o
    | m :: queue => ⟨queue, o.written ++ Utf8.encode (Framing.frameText m.text).toList⟩

def run (moves : List Move) : Outbound := moves.foldl move {}

end Outbound

end ShipBridge.Editor
