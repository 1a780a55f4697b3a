import ShipBridge.Relay.Settings

/-!
# Flags

The flags of the program's command line, each with its long name, perhaps a letter, the name of
its value if it takes one, what it is for, and the value that holds when it is not given.
-/

namespace ShipBridge.CommandLine

def program : String := "hoon-language-server"

def version : String := "0.2.0"

inductive Flag where
  | url
  | port
  | ship
  | code
  | delay
  | requestTimeout
  | logFile
  | logJson
  | debug
  | help
  | version
deriving DecidableEq, Repr

namespace Flag

/-- All flags in the order in which help lists them. -/
def all : List Flag :=
  [.url, .port, .ship, .code, .delay, .requestTimeout, .logFile, .logJson, .debug, .help, .version]

def name : Flag → String
  | .url => "url"
  | .port => "port"
  | .ship => "ship"
  | .code => "code"
  | .delay => "delay"
  | .requestTimeout => "request-timeout"
  | .logFile => "log-file"
  | .logJson => "log-json"
  | .debug => "debug"
  | .help => "help"
  | .version => "version"

def letter? : Flag → Option Char
  | .port => some 'p'
  | .delay => some 'd'
  | .help => some 'h'
  | .version => some 'V'
  | _ => none

def takesValue : Flag → Bool
  | .logJson | .debug | .help | .version => false
  | _ => true

def ofName? (s : String) : Option Flag := all.find? (·.name == s)

def ofLetter? (c : Char) : Option Flag := all.find? (·.letter? == some c)

def placeholder (f : Flag) : String :=
  String.ofList (f.name.toList.map fun c => if c = '-' then '_' else c.toUpper)

def text (f : Flag) : String :=
  "--" ++ f.name ++ if f.takesValue then " <" ++ f.placeholder ++ ">" else ""

def purpose : Flag → String
  | .url => "Base URL of the ship"
  | .port => "HTTP port of the running ship"
  | .ship => "Ship name, without the sig"
  | .code => "Login code (+code) of the ship"
  | .delay => "Milliseconds before a saved file's notification is sent again"
  | .requestTimeout => "Seconds to wait for the ship to answer a request"
  | .logFile => "Log file"
  | .logJson => "Write logs as JSON lines"
  | .debug => "Enable debug logging"
  | .help => "Print help"
  | .version => "Print version"

def default? : Flag → Option String
  | .url => some ({} : ShipAddress).baseUrl
  | .port => some (toString ({} : ShipAddress).port)
  | .ship => some ShipAddress.defaultShip
  | .code => some ShipAddress.defaultCode
  | .delay => some (toString (({ ship := "" } : Relay.Settings).notificationDelay.nanos / 1000000))
  | .requestTimeout => some (toString ({ ship := "" } : Relay.Settings).requestTimeout.seconds)
  | .logFile => some Relay.logFile
  | _ => none

def helpText (f : Flag) : String :=
  let letter := match f.letter? with
    | some c => "  -" ++ c.toString ++ ", "
    | none => "      "
  let preset := match f.default? with
    | some v => " [default: " ++ v ++ "]"
    | none => ""
  letter ++ f.text ++ "\n          " ++ f.purpose ++ preset ++ "\n"

end Flag

/-- What the program is called with: these flags, or any. -/
def usage (used : List Flag) : String :=
  "Usage: " ++ program ++ " " ++
    if used.isEmpty then "[OPTIONS]" else " ".intercalate (used.map Flag.text)

def helpText : String :=
  "Language server for Hoon, backed by a running ship\n\n" ++ usage [] ++ "\n\nOptions:\n" ++
    String.join (Flag.all.map Flag.helpText)

def versionText : String := program ++ " " ++ version ++ "\n"

end ShipBridge.CommandLine
