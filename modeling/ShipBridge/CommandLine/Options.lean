import ShipBridge.CommandLine.Likeness
import ShipBridge.Text.Numeral
import ShipBridge.Text.Split

/-!
# Reading a command line

Arguments are read from left to right. A flag may have its value attached or take the next
argument; that value is only looked at when the next flag arrives or the line ends, and a flag
still without one is then refused. Reading stops at the first refusal, and at a call for help or
for the version.
-/

namespace ShipBridge.CommandLine

inductive Refusal where
  | unknown (argument : String) (suggestion : Option Flag) (used : List Flag)
  | valueMissing (flag : Flag)
  | valueInvalid (flag : Flag) (value reason : String)
  | valueUnwanted (flag : Flag) (value : String) (used : List Flag)
  | repeated (flag : Flag)
deriving DecidableEq, Repr

inductive Ending where
  | help
  | version
  | refused (r : Refusal)
deriving DecidableEq, Repr

def Refusal.message : Refusal → String
  | .unknown argument suggestion used =>
    s!"unexpected argument '{argument}' found" ++
      (match suggestion with
        | some f => s!"\n\n  tip: a similar argument exists: '--{f.name}'"
        | none => "") ++ "\n\n" ++ usage used
  | .valueMissing flag => s!"a value is required for '{flag.text}' but none was supplied"
  | .valueInvalid flag value reason => s!"invalid value '{value}' for '{flag.text}': {reason}"
  | .valueUnwanted flag value used =>
    s!"unexpected value '{value}' for '{flag.text}' found; no more were expected\n\n" ++ usage used
  | .repeated flag => s!"the argument '{flag.text}' cannot be used multiple times\n\n" ++ usage []

def Refusal.text (r : Refusal) : String :=
  "error: " ++ r.message ++ "\n\nFor more information, try '--help'.\n"

structure Options where
  url : String := ({} : ShipAddress).baseUrl
  port : Nat := ({} : ShipAddress).port
  ship : String := ShipAddress.defaultShip
  code : String := ShipAddress.defaultCode
  delay : Duration := ({ ship := "" } : Relay.Settings).notificationDelay
  requestTimeout : Duration := ({ ship := "" } : Relay.Settings).requestTimeout
  logFile : String := Relay.logFile
  logJson : Bool := false
  debug : Bool := false
deriving DecidableEq, Repr

namespace Options

def address (o : Options) : ShipAddress := { baseUrl := o.url, port := o.port }

def settings (o : Options) : Relay.Settings :=
  { ship := o.ship, notificationDelay := o.delay, requestTimeout := o.requestTimeout }

end Options

def numeralReason : Numeral.Flaw → String
  | .empty => "cannot parse integer from empty string"
  | .digit => "invalid digit found in string"
  | .overflow => "number too large to fit in target type"

def readUnsigned (value : String) : Except String Nat :=
  (Numeral.read Numeral.maxU64 value.toList).mapError numeralReason

/-- A port is read as a signed number and then compared with its bounds. -/
def readPort (value : String) : Except String Nat :=
  let outside := fun n : Int => Except.error s!"{n} is not in 0..=65535"
  match value.toList with
  | '-' :: digits =>
    if digits.isEmpty then .error (numeralReason .digit)
    else match Numeral.readDigits 0x8000000000000000 0 digits with
      | .ok 0 => .ok 0
      | .ok n => outside (-n)
      | .error .overflow => .error "number too small to fit in target type"
      | .error flaw => .error (numeralReason flaw)
  | digits => match Numeral.read 0x7FFFFFFFFFFFFFFF digits with
    | .ok n => if n ≤ 65535 then .ok n else outside n
    | .error flaw => .error (numeralReason flaw)

/-- The flags given so far, in order, with the options that they set; and the flag whose value
has not been looked at yet, if it has one at all. -/
structure Progress where
  options : Options := {}
  given : List Flag := []
  pending : Option (Flag × Option String) := none
deriving DecidableEq, Repr

namespace Progress

def set (o : Options) (f : Flag) (value : String) : Except Ending Options :=
  let refuse := fun reason => Ending.refused (.valueInvalid f value reason)
  match f with
  | .url => .ok { o with url := value }
  | .port => do return { o with port := ← (readPort value).mapError refuse }
  | .ship => .ok { o with ship := value }
  | .code => .ok { o with code := value }
  | .delay => do return { o with delay := .ofMillis (← (readUnsigned value).mapError refuse) }
  | .requestTimeout => do
    return { o with requestTimeout := .ofSeconds (← (readUnsigned value).mapError refuse) }
  | .logFile => if value.isEmpty then .error (.refused (.valueMissing f))
    else .ok { o with logFile := value }
  | .logJson => .ok { o with logJson := true }
  | .debug => .ok { o with debug := true }
  | .help => .error .help
  | .version => .error .version

def give (p : Progress) (f : Flag) (value : Option String) : Except Ending Progress :=
  if f.takesValue ∧ value = none then .error (.refused (.valueMissing f))
  else if p.given.contains f then .error (.refused (.repeated f))
  else do return { p with options := ← set p.options f (value.getD ""), given := p.given ++ [f] }

/-- Take in the flag whose value was still to be looked at. -/
def settle (p : Progress) : Except Ending Progress :=
  match p.pending with
  | none => .ok p
  | some (f, value) => give { p with pending := none } f value

/-- A flag that arrives with its value attached, or is to take the next argument. -/
def flag (p : Progress) (f : Flag) (attached : Option String) : Except Ending Progress := do
  let p ← p.settle
  if f.takesValue ∧ attached = none then return { p with pending := some (f, none) }
  else p.give f attached

/-- The flags that a refusal shows as used: those given, and the one it is about. -/
def used (p : Progress) (about : Option Flag) : List Flag :=
  p.given ++ (about.filter (!p.given.contains ·)).toList

def long (p : Progress) (argument : List Char) : Except Ending Progress :=
  let (name, attached) := Text.cut '=' argument
  let name := String.ofList name
  match Flag.ofName? name with
  | some f => match attached with
    | some value =>
      if f.takesValue then p.flag f (some (String.ofList value))
      else .error (.refused (.valueUnwanted f (String.ofList value) (p.used (some f))))
    | none => p.flag f none
  | none =>
    let suggestion := suggestion? name
    .error (.refused (.unknown ("--" ++ name) suggestion (p.used suggestion)))

/-- A row of letters; what follows the letter of a flag that takes a value is that value. -/
def letters (p : Progress) : List Char → Except Ending Progress
  | [] => .ok p
  | c :: rest => match Flag.ofLetter? c with
    | none => .error (.refused (.unknown ("-" ++ c.toString) none []))
    | some f =>
      if f.takesValue then
        p.flag f (match rest with
          | [] => none
          | '=' :: value => some (String.ofList value)
          | value => some (String.ofList value))
      else do (← p.flag f none).letters rest

/-- An argument that is no flag is the value of the flag before it, or unknown. -/
def plain (p : Progress) (argument : String) : Except Ending Progress :=
  match p.pending with
  | some (f, none) => .ok { p with pending := some (f, some argument) }
  | _ => .error (.refused (.unknown argument none []))

/-- Read one argument; after two hyphens every further one is unknown. -/
def read (p : Progress) : List String → Except Ending Progress
  | [] => p.settle
  | argument :: rest => match argument.toList with
    | ['-', '-'] => match rest with
      | [] => p.settle
      | first :: _ => .error (.refused (.unknown first none []))
    | '-' :: '-' :: name => do (← p.long name).read rest
    | '-' :: c :: cs => do (← p.letters (c :: cs)).read rest
    | _ => do (← p.plain argument).read rest

end Progress

def Options.read (arguments : List String) : Except Ending Options :=
  Progress.options <$> Progress.read {} arguments

end ShipBridge.CommandLine
