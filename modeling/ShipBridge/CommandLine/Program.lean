import ShipBridge.CommandLine.Options
import ShipBridge.Retry
import ShipBridge.Web.Exchange

/-!
# The program

The program reads its command line, logs in to the ship, and serves. It ends before that with
what it was asked to print, with a refusal of its command line, or with the failure to log in,
which is told together with everything that lay behind it.
-/

namespace ShipBridge.CommandLine

structure Exit where
  status : Nat
  output : String := ""
  complaint : String := ""
deriving DecidableEq, Repr

inductive Course where
  | ended (e : Exit)
  | serving (address : ShipAddress) (settings : Relay.Settings)

def Ending.exit : Ending → Exit
  | .help => { status := 0, output := helpText }
  | .version => { status := 0, output := versionText }
  | .refused r => { status := 2, complaint := r.text }

/-- A cause set off from what it explains, every line of it. -/
def indented (label margin : String) (cause : String) : String :=
  label ++ String.ofList
    (Text.join ('\n' :: margin.toList) (Text.pieces '\n' cause.toList))

/-- Causes are numbered if there are several. -/
def causesText (causes : List String) : String :=
  match causes with
  | [] => ""
  | [cause] => "\n\nCaused by:\n" ++ indented "    " "    " cause
  | causes =>
    "\n\nCaused by:" ++ String.join (causes.zipIdx.map fun (cause, n) =>
      let number := toString n
      "\n" ++ indented ("".pushn ' ' (5 - number.length) ++ number ++ ": ") "       " cause)

def loginComplaint (o : Options) (f : Web.LoginFailure) : String :=
  s!"Error: Failed to log in to {o.url}:{o.port}" ++ causesText (f.fault.message :: f.causes) ++
    "\n"

def logIn (network : Web.Network) (o : Options) : Except Web.LoginFailure (List String) :=
  let policy : Retry.Policy := {}
  (Retry.attempts policy.maxAttempts (fun f : Web.LoginFailure => f.fault.retryable)
    (fun _ => Web.login network o.address o.code)).outcome

def run (network : Web.Network) (arguments : List String) : Course :=
  match Options.read arguments with
  | .error ending => .ended ending.exit
  | .ok options => match logIn network options with
    | .error failure => .ended { status := 1, complaint := loginComplaint options failure }
    | .ok cookies => .serving { options.address with cookies } options.settings

end ShipBridge.CommandLine
