import ShipBridge.Json.Printer
import ShipBridge.Json.Record
import ShipBridge.Text.Utf8

/-!
# Messages between an editor and the bridge

A message is a request, a notification or a response, tried in that order: a text is the first
kind whose record it fits. Where `params`, `result`, `error` or `data` is null it counts as
absent. Written out, absent parts are left off and the others stand in a fixed order.
-/

namespace ShipBridge.Editor

structure Request where
  jsonrpc : String
  id : Json
  method : String
  params : Option Json
deriving DecidableEq

structure Notification where
  jsonrpc : String
  method : String
  params : Option Json
deriving DecidableEq

structure ResponseError where
  code : Int
  message : String
  data : Option Json
deriving DecidableEq

structure Response where
  jsonrpc : String
  id : Json
  result : Option Json
  error : Option ResponseError
deriving DecidableEq

inductive Message where
  | request (r : Request)
  | notification (n : Notification)
  | response (r : Response)
deriving DecidableEq

open Json

/-- An optional part: null counts as absent. -/
def part? : Option Json → Option Json
  | none | some .null => none
  | some j => some j.normalize

def Request.ofRecord? (r : Record) : Option Request := do
  match ← r.values? [⟨"jsonrpc", true⟩, ⟨"id", true⟩, ⟨"method", true⟩, .optional "params"] with
  | [some jsonrpc, some id, some method, params] =>
    return ⟨← jsonrpc.string?, id.normalize, ← method.string?, part? params⟩
  | _ => none

def Notification.ofRecord? (r : Record) : Option Notification := do
  match ← r.values? [⟨"jsonrpc", true⟩, ⟨"method", true⟩, .optional "params"] with
  | [some jsonrpc, some method, params] =>
    return ⟨← jsonrpc.string?, ← method.string?, part? params⟩
  | _ => none

def ResponseError.ofRecord? (r : Record) : Option ResponseError := do
  match ← r.values? [⟨"code", true⟩, ⟨"message", true⟩, .optional "data"] with
  | [some code, some message, data] => return ⟨← code.int64?, ← message.string?, part? data⟩
  | _ => none

def errorPart? : Option Json → Option (Option ResponseError)
  | none | some .null => some none
  | some j => do return some (← ResponseError.ofRecord? (← j.record?))

def Response.ofRecord? (r : Record) : Option Response := do
  match ← r.values? [⟨"jsonrpc", true⟩, ⟨"id", true⟩, .optional "result", .optional "error"] with
  | [some jsonrpc, some id, result, error] =>
    return ⟨← jsonrpc.string?, id.normalize, part? result, ← errorPart? error⟩
  | _ => none

namespace Message

def ofTree? (tree : Json) : Option Message := do
  let r ← tree.record?
  (Request.ofRecord? r).map .request <|> (Notification.ofRecord? r).map .notification <|>
    (Response.ofRecord? r).map .response

/-- The root is read to its end, then its shape is checked, then that nothing follows it. -/
def decode (cs : List Char) : Except Fault Message := do
  let (tree, rest) ← readRoot cs
  match ofTree? tree with
  | none => .error .shape
  | some m =>
    expectEnd rest
    return m

/-- Decode a body. Where the bytes stop being UTF-8, a text that goes on is no JSON; only a string
that never closes is cut short. -/
def ofBytes (bytes : List UInt8) : Except Fault Message :=
  match Utf8.split bytes with
  | (cs, []) => decode cs
  | (cs, rest) => match readRoot cs with
    | .ok (tree, _) => .error (if (ofTree? tree).isSome then .notJson else .shape)
    | .error .cutShort =>
      let tail := rest.map fun b => if b < 0x80 then Char.ofNat b.toNat else '\ufffd'
      match readRoot (cs ++ tail) with
      | .error .cutShort => .error (if tail.contains '"' then .notJson else .cutShort)
      | _ => .error .notJson
    | .error e => .error e

end Message

def optionalMember (key : String) : Option Json → List (String × Json)
  | none => []
  | some j => [(key, j)]

def Request.members (r : Request) : List (String × Json) :=
  [("jsonrpc", .string r.jsonrpc), ("id", r.id), ("method", .string r.method)] ++
    optionalMember "params" r.params

def Notification.members (n : Notification) : List (String × Json) :=
  [("jsonrpc", .string n.jsonrpc), ("method", .string n.method)] ++
    optionalMember "params" n.params

def ResponseError.members (e : ResponseError) : List (String × Json) :=
  [("code", .ofInt e.code), ("message", .string e.message)] ++ optionalMember "data" e.data

def Response.members (r : Response) : List (String × Json) :=
  [("jsonrpc", .string r.jsonrpc), ("id", r.id)] ++ optionalMember "result" r.result ++
    optionalMember "error" (r.error.map fun e => .object e.members)

namespace Message

def members : Message → List (String × Json)
  | .request r => r.members
  | .notification n => n.members
  | .response r => r.members

def text (m : Message) : String := recordText m.members

def kind : Message → String
  | .request _ => "request"
  | .notification _ => "notification"
  | .response _ => "response"

def notify (method : String) (params : Option Json) : Message :=
  .notification ⟨"2.0", method, params⟩

def success (id result : Json) : Message := .response ⟨"2.0", id, some result, none⟩

def failure (id : Json) (code : Int) (message : String) (data : Option Json := none) : Message :=
  .response ⟨"2.0", id, none, some ⟨code, message, data⟩⟩

def unreadable (f : Fault) : Message :=
  let reason := match f with
    | .shape => "data did not match any variant of untagged enum Message"
    | f => f.label
  failure .null (-32700) s!"Parse error: {reason}"

end Message

end ShipBridge.Editor
