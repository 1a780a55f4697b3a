import ShipBridge.Relay.Settings
import ShipBridge.Session.Fault
import ShipBridge.Web.Url

/-!
# Where a ship answers

The channel and the login page of a ship stand at fixed paths of its origin, whatever path, query
or fragment its base URL has. A base URL that cannot carry a path or a port names no ship.
-/

namespace ShipBridge.ShipAddress

open Web

def origin (a : ShipAddress) : Except Session.Fault Url :=
  match Url.read (a.baseUrl.toList.reverse.dropWhile (· == '/')).reverse with
  | .error flaw => .error (.config ("invalid ship URL: " ++ flaw.message))
  | .ok url =>
    if !url.carriesPath then .error (.config s!"ship URL {a.baseUrl} cannot carry a path")
    else match url.withPort? a.port with
      | none => .error (.config s!"ship URL {a.baseUrl} cannot carry a port")
      | some url => .ok url

def channelUrl (a : ShipAddress) (uid : String) : Except Session.Fault Url :=
  (·.atPath (channelPath ++ uid)) <$> a.origin

def loginUrl (a : ShipAddress) : Except Session.Fault Url :=
  (·.atPath loginPath) <$> a.origin

def cookieText? (a : ShipAddress) : Option String :=
  if a.cookies.isEmpty then none else some ("; ".intercalate a.cookies)

/-- A name for a channel: the time in milliseconds and six random hexadecimal digits. -/
def channelName (millis random : Nat) : String :=
  let digits := (List.range 6).map fun i => Text.hexDigit (random / Nat.pow 16 (5 - i))
  toString millis ++ "-" ++ String.ofList digits

end ShipBridge.ShipAddress
