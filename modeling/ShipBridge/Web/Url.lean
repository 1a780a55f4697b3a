import ShipBridge.Web.Host

/-!
# URLs

A URL is read in the way of the web: blanks around it, and tabs and line breaks within it, do not
count; in the schemes of the web a backslash is as good as a slash; dots are resolved while the
path is read; and whatever may not stand in a part is percent-encoded there.
-/

namespace ShipBridge.Web

/-- The path of a URL that holds no slash after its scheme is a plain text. -/
inductive Path where
  | verbatim (text : String)
  | segments (parts : List String)
deriving DecidableEq, Repr, Inhabited

structure Url where
  scheme : String
  user : String := ""
  password : String := ""
  host : Option Host := none
  port : Option Nat := none
  path : Path
  query : Option String := none
  fragment : Option String := none
deriving DecidableEq, Repr, Inhabited

namespace Url

def defaultPort? (scheme : String) : Option Nat :=
  if scheme = "http" ∨ scheme = "ws" then some 80
  else if scheme = "https" ∨ scheme = "wss" then some 443
  else if scheme = "ftp" then some 21
  else none

def isWeb (scheme : String) : Bool := (defaultPort? scheme).isSome || scheme == "file"

def isSlash (web : Bool) (c : Char) : Bool := c == '/' || (web && c == '\\')

/-- Does this character end the part before the path? -/
def endsAuthority (web : Bool) (c : Char) : Bool := isSlash web c || c == '?' || c == '#'

def clean (cs : List Char) : List Char :=
  let blank := fun c : Char => c.toNat ≤ 0x20
  ((cs.dropWhile blank).reverse.dropWhile blank).reverse.filter
    fun c => c != '\t' && c != '\n' && c != '\r'

def readScheme? (cs : List Char) : Option (String × List Char) :=
  match Text.cut ':' cs with
  | (c :: name, some rest) =>
    let inName := fun c : Char => c.isAlphanum || c == '+' || c == '-' || c == '.'
    if c.isAlpha ∧ name.all inName then
      some (String.ofList ((c :: name).map Char.toLower), rest)
    else none
  | _ => none

/-- The part before the last `@`, split at its first colon, and what follows. -/
def readCredentials (web : Bool) (cs : List Char) :
    Except UrlFlaw (String × String × List Char) :=
  let authority := cs.takeWhile (!endsAuthority web ·)
  let rest := cs.drop authority.length
  match Text.cutLast? '@' authority with
  | none => .ok ("", "", cs)
  | some (before, after) =>
    if before.isEmpty ∧ after.isEmpty ∧ !rest.isEmpty then .error .emptyHost
    else
      let (user, password) := Text.cut ':' before
      let written := fun t => String.ofList (Percent.encode Percent.inCredentials t)
      .ok (written user, written (password.getD []), after ++ rest)

/-- A colon ends the host unless it stands in brackets. -/
def hostLength (web inside : Bool) : List Char → Nat
  | [] => 0
  | c :: cs =>
    if endsAuthority web c ∨ (c = ':' ∧ !inside) then 0
    else hostLength web (if c = '[' then true else if c = ']' then false else inside) cs + 1

def readPort (scheme : String) (cs : List Char) : Except UrlFlaw (Option Nat × List Char) :=
  match cs with
  | ':' :: cs =>
    let digits := cs.takeWhile Char.isDigit
    let rest := cs.drop digits.length
    match Numeral.readDigits 65535 0 digits with
    | .error _ => .error .portNumber
    | .ok n =>
      if rest.head?.any (!endsAuthority true ·) then .error .portNumber
      else if digits.isEmpty ∨ defaultPort? scheme = some n then .ok (none, rest)
      else .ok (some n, rest)
  | cs => .ok (none, cs)

/-- The host and port, if there is a host, and what follows. Outside the web a host may be
missing, but not before a port. -/
def readAuthority (scheme : String) (cs : List Char) :
    Except UrlFlaw (Host × Option Nat × List Char) := do
  let web := isWeb scheme
  let n := hostLength web false cs
  let rest := cs.drop n
  if n = 0 ∧ (web ∨ rest.head? = some ':') then throw .emptyHost
  let host ← if web then Host.read (cs.take n) else Host.readVerbatim (cs.take n)
  let (port, rest) ← readPort scheme rest
  return (host, port, rest)

def isSingleDot (s : String) : Bool := [".", "%2e"].contains s.toLower

def isDoubleDot (s : String) : Bool := ["..", ".%2e", "%2e.", "%2e%2e"].contains s.toLower

/-- A letter and a colon or bar name a drive. -/
def isDrive (s : String) : Bool :=
  match s.toList with
  | [c, d] => c.isAlpha && (d == ':' || d == '|')
  | _ => false

/-- Leave the last segment, unless it names a drive. -/
def climb : List String → List String
  | [] => []
  | s :: above => if isDrive s then s :: above else above

/-- The segments of a path, `above` being those before, last first. The path ends with an empty
segment if dots end it. -/
def resolveDots (above : List String) : List String → List String
  | [] => above.reverse
  | s :: rest =>
    let final := rest.isEmpty
    if isDoubleDot s then
      if final then (climb above).reverse ++ [""] else resolveDots (climb above) rest
    else if isSingleDot s then
      if final then above.reverse ++ [""] else resolveDots above rest
    else resolveDots (s :: above) rest

/-- A path without its query, with or without a slash at its start. -/
def readSegments (web : Bool) (cs : List Char) : List String :=
  let cs := cs.map fun c => if isSlash web c then '/' else c
  let cs := if cs.head? = some '/' then cs.tail else cs
  resolveDots [] ((Text.pieces '/' cs).map fun s => String.ofList (Percent.encode Percent.inPath s))

/-- What stands after a path, split at the first `#`; a query has a `?` before it. -/
def readTail (web : Bool) (cs : List Char) : Option String × Option String :=
  let (query, fragment) := Text.cut '#' cs
  let reserved := if web then '\x27' :: Percent.inQuery else Percent.inQuery
  (query.head?.map fun _ => String.ofList (Percent.encode reserved query.tail),
    fragment.map fun t => String.ofList (Percent.encode Percent.inFragment t))

def startsTail (c : Char) : Bool := c == '?' || c == '#'

/-- Give a URL the path, query and fragment written in `cs`. Only outside the web can the path be
missing. -/
def withPath (u : Url) (cs : List Char) : Url :=
  let web := isWeb u.scheme
  let path := cs.takeWhile (!startsTail ·)
  let (query, fragment) := readTail web (cs.drop path.length)
  { u with
    path := .segments (if path.isEmpty ∧ !web then [] else readSegments web path)
    query, fragment }

def readLocated (scheme : String) (cs : List Char) : Except UrlFlaw Url := do
  let (user, password, rest) ← readCredentials (isWeb scheme) cs
  let (host, port, rest) ← readAuthority scheme rest
  if host = .name "" ∧ (user ≠ "" ∨ password ≠ "") then throw .emptyHost
  return withPath { scheme, user, password, host := some host, port, path := .segments [] } rest

/-- A file has a host after two slashes only; the drive of a file is no host, nor is this
machine's own name. -/
def readFile (cs : List Char) : Except UrlFlaw Url := do
  let url : Url := { scheme := "file", host := some (.name ""), path := .segments [] }
  match cs with
  | a :: b :: rest =>
    if isSlash true a ∧ isSlash true b then
      let written := rest.takeWhile (!endsAuthority true ·)
      if written.isEmpty ∨ isDrive (String.ofList written) then return url.withPath rest
      else
        let host ← Host.read written
        let host := if host = .name "localhost" then .name "" else host
        return { url with host := some host }.withPath (rest.drop written.length)
    else return url.withPath cs
  | _ => return url.withPath cs

def read (cs : List Char) : Except UrlFlaw Url :=
  match readScheme? (clean cs) with
  | none => .error .schemeless
  | some (scheme, rest) =>
    if scheme = "file" then readFile rest
    else if isWeb scheme then readLocated scheme (rest.dropWhile (isSlash true))
    else match rest with
      | '/' :: '/' :: rest => readLocated scheme rest
      | '/' :: _ => .ok (withPath { scheme, path := .segments [] } rest)
      | _ =>
        let text := rest.takeWhile (!startsTail ·)
        let (query, fragment) := readTail false (rest.drop text.length)
        .ok { scheme, path := .verbatim (String.ofList (Percent.encode [] text)), query, fragment }

def atPath (u : Url) (reference : String) : Url := u.withPath (clean reference.toList)

def carriesPath (u : Url) : Bool :=
  match u.path with
  | .verbatim _ => false
  | .segments _ => true

/-- The URL with this port, which goes unwritten if it is the scheme's own. A URL without a host,
or of a file, has no place for a port. -/
def withPort? (u : Url) (port : Nat) : Option Url :=
  if u.host = none ∨ u.host = some (.name "") ∨ u.scheme = "file" then none
  else some { u with port := if defaultPort? u.scheme = some port then none else some port }

def withoutCredentials (u : Url) : Url := { u with user := "", password := "" }

def credentialsText (u : Url) : String :=
  let password := if u.password = "" then "" else ":" ++ u.password
  if u.user = "" ∧ u.password = "" then "" else u.user ++ password ++ "@"

def pathText (u : Url) : String :=
  match u.path with
  | .verbatim t => t
  | .segments parts => String.join (parts.map ("/" ++ ·))

def text (u : Url) : String :=
  u.scheme ++ ":" ++
    (match u.host with
      | some h => "//" ++ u.credentialsText ++ h.text ++
        (match u.port with | some p => ":" ++ toString p | none => "")
      | none => "") ++
    u.pathText ++
    (match u.query with | some q => "?" ++ q | none => "") ++
    (match u.fragment with | some f => "#" ++ f | none => "")

end Url

end ShipBridge.Web
