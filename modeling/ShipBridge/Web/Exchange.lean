import ShipBridge.EventStream.Decoder
import ShipBridge.Text.Blank
import ShipBridge.Web.ShipUrl
import ShipBridge.Web.Status
import ShipBridge.Wire.Command

/-!
# Requests to a ship and what becomes of them

A network is a function from requests to answers; an exchange may also bring no answer at all. A
request that cannot be put on the wire (because its cookies are no header value, or its URL is
not one of the web) fails before the network is asked. Each kind of request says what it takes
from its answer: a login its cookies, an opened stream its body, the others only the status.
-/

namespace ShipBridge.Web

inductive Method where
  | get
  | put
  | post
  | delete
deriving DecidableEq, Repr

def Method.text : Method → String
  | .get => "GET"
  | .put => "PUT"
  | .post => "POST"
  | .delete => "DELETE"

/-- `cookies` is the text of the cookie header, if there is one. -/
structure Request where
  method : Method
  url : Url
  headers : List (String × String) := []
  cookies : Option String := none
  body : List UInt8 := []
deriving Repr

/-- The body is cut short unless it is `whole`. -/
structure Response where
  status : Nat
  headers : List (String × List UInt8) := []
  body : List UInt8 := []
  whole : Bool := true
deriving Repr, Inhabited

/-- No answer came, each cause being that of the one before; `late` if the time ran out. -/
structure Silence where
  causes : List String
  late : Bool := false
deriving DecidableEq, Repr

abbrev Network := Request → Except Silence Response

/-- A machine whose network reaches nowhere. -/
def offline : Network := fun _ =>
  .error ⟨["client error (Connect)", "tcp connect error",
    "Network is unreachable (os error 101)"], false⟩

/-- An exchange that brought no answer, with its wording and the causes behind it. -/
structure Breakdown where
  message : String
  causes : List String
  late : Bool := false
deriving DecidableEq, Repr

/-- What a header value may hold: no control character but the tab. -/
def isHeaderValue (s : String) : Bool :=
  s.toList.all fun c => !Percent.isControl c || c == '\t'

/-- Characters that a host may hold, but not in the first line of a request. -/
def isUnaddressable (c : Char) : Bool := ['"', '\x60', '\x7b', '\x7d'].contains c

def isAddressable (u : Url) : Bool :=
  !(u.host.map Host.text).any (·.toList.any isUnaddressable)

def longestUrl : Nat := 65534

/-- Credentials travel in a header of their own, unless the user's name is no text. -/
def wireUrl (u : Url) : Url :=
  let isText := fun s : String => (Utf8.decode? (Percent.decode s.toList)).isSome
  if isText u.user ∧ (u.user ≠ "" ∨ isText u.password) then u.withoutCredentials else u

/-- Why a request cannot be put on the wire. -/
def Request.refusal? (r : Request) : Option Breakdown :=
  let url := wireUrl r.url
  let flawed := fun cause => some ⟨s!"builder error for url ({url.text})", [cause], false⟩
  if r.cookies.any (!isHeaderValue ·) then
    some ⟨"builder error", ["failed to parse header value"], false⟩
  else if url.scheme ≠ "http" ∧ url.scheme ≠ "https" then flawed "URL scheme is not allowed"
  else if !isAddressable url ∨ longestUrl < url.text.utf8ByteSize then
    flawed "Parsed Url is not a valid Uri"
  else none

def Request.perform (network : Network) (r : Request) : Except Breakdown Response :=
  match r.refusal? with
  | some b => .error b
  | none => match network r with
    | .ok response => .ok response
    | .error silence =>
      .error ⟨s!"error sending request for url ({(wireUrl r.url).text})", silence.causes,
        silence.late⟩

/-- A body as text; one that is cut short gives none of it. -/
def Response.text (r : Response) : String :=
  if r.whole then String.ofList (Utf8.repair r.body) else ""

/-- Any status but success is a failure that carries the body. -/
def Response.check (url : Url) (r : Response) : Except Session.Fault Response :=
  if Status.isSuccess r.status then .ok r else .error (.http url.text r.status r.text)

/-! ## The requests of a channel -/

structure Resource where
  url : Url
  cookies : Option String

def Resource.of (a : ShipAddress) (uid : String) : Except Session.Fault Resource := do
  return { url := ← a.channelUrl uid, cookies := a.cookieText? }

namespace Resource

def agent : String × String := ("user-agent", ShipAddress.userAgent)

def batchRequest (r : Resource) (batch : List Wire.Command) : Request where
  method := .put
  url := r.url
  headers := [agent, ("accept", "*/*"), ("content-type", "application/json")]
  cookies := r.cookies
  body := Utf8.encode (Wire.Command.batchText batch).toList

def streamRequest (r : Resource) (resume : Option Nat) : Request where
  method := .get
  url := r.url
  headers := [agent, ("accept", "text/event-stream"), ("cache-control", "no-cache")] ++
    (resume.map fun n => ("last-event-id", toString n)).toList
  cookies := r.cookies

def discardRequest (r : Resource) : Request where
  method := .delete
  url := r.url
  headers := [agent, ("accept", "*/*")]
  cookies := r.cookies

def attempt (network : Network) (r : Request) : Except Session.Fault Response :=
  match r.perform network with
  | .error b => .error (.network s!"{r.method.text} {r.url.text} failed: {b.message}")
  | .ok response => response.check r.url

def send (network : Network) (r : Resource) (batch : List Wire.Command) :
    Except Session.Fault Unit :=
  (fun _ => ()) <$> attempt network (r.batchRequest batch)

/-- The chunks of an opened event stream; a body that is cut short ends in a failure. -/
def openStream (network : Network) (r : Resource) (resume : Option Nat) :
    Except Session.Fault (List EventStream.Chunk) := do
  let response ← attempt network (r.streamRequest resume)
  return .bytes response.body ::
    if response.whole then [] else [.failure "error decoding response body"]

/-- A discard that runs out of time says so without saying after how long. -/
def discard (network : Network) (r : Resource) : Except Session.Fault Unit :=
  match r.discardRequest.perform network with
  | .error b => .error (if b.late then .timeout ⟨0⟩ else .network b.message)
  | .ok response => (fun _ => ()) <$> response.check r.url

end Resource

/-! ## Logging in -/

/-- A form value: a space becomes a plus sign, and only letters, digits and four marks stand for
themselves. -/
def formValue (cs : List Char) : List Char :=
  cs.flatMap fun c =>
    if c = ' ' then ['+']
    else if c.isAlphanum || ['*', '-', '.', '_'].contains c then [c]
    else (String.utf8EncodeChar c).flatMap Percent.encodeByte

def loginRequest (url : Url) (code : String) : Request where
  method := .post
  url
  headers := [Resource.agent, ("accept", "*/*"),
    ("content-type", "application/x-www-form-urlencoded")]
  body := Utf8.encode ("password=".toList ++ formValue code.toList)

def cookie? (header : List UInt8) : Option String :=
  if header.all fun b => (0x20 ≤ b && b < 0x7F) || b == 9 then
    let pair := Text.trim (Text.cut ';' (header.map fun b => Char.ofNat b.toNat)).1
    if pair.contains '=' then some (String.ofList pair) else none
  else none

def Response.cookies (r : Response) : List String :=
  r.headers.filterMap fun (name, value) =>
    if name.toLower = "set-cookie" then cookie? value else none

/-- A login that failed, and what lay behind it if no answer came. -/
structure LoginFailure where
  fault : Session.Fault
  causes : List String := []
deriving Repr

/-- The cookies for which a ship trades its code; a redirection carries them too. -/
def login (network : Network) (a : ShipAddress) (code : String) :
    Except LoginFailure (List String) :=
  match a.loginUrl with
  | .error fault => .error ⟨fault, []⟩
  | .ok url => match (loginRequest url code).perform network with
    | .error b =>
      .error ⟨.network s!"Failed to reach {url.text}: {b.message}", b.message :: b.causes⟩
    | .ok response =>
      if !(Status.isSuccess response.status || Status.isRedirection response.status) then
        .error ⟨.auth s!"{url.text} answered {Status.text response.status}", []⟩
      else match response.cookies with
        | [] => .error ⟨.auth s!"{url.text} returned no session cookie", []⟩
        | cookies => .ok cookies

end ShipBridge.Web
