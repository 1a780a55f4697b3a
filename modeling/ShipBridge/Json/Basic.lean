/-!
# JSON values

Numbers keep the distinction that their text makes: an integer between −2⁶³ and 2⁶⁴ − 1 is
exact, and everything else is a double, held by its bits so that equality is decidable.
The members of an object are listed by key in increasing order, each key once.
-/

namespace ShipBridge

inductive Json.Number where
  | int (value : Int)
  | float (bits : UInt64)
deriving DecidableEq, Repr, Inhabited

inductive Json where
  | null
  | bool (value : Bool)
  | number (value : Json.Number)
  | string (text : String)
  | array (items : List Json)
  | object (members : List (String × Json))
deriving Inhabited

namespace Json

mutual

def decideEq : (a b : Json) → Decidable (a = b)
  | .null, .null => isTrue rfl
  | .bool a, .bool b => if h : a = b then isTrue (h ▸ rfl) else isFalse fun e => h (by injection e)
  | .number a, .number b =>
    if h : a = b then isTrue (h ▸ rfl) else isFalse fun e => h (by injection e)
  | .string a, .string b =>
    if h : a = b then isTrue (h ▸ rfl) else isFalse fun e => h (by injection e)
  | .array a, .array b => match decideEqItems a b with
    | isTrue h => isTrue (h ▸ rfl)
    | isFalse h => isFalse fun e => h (by injection e)
  | .object a, .object b => match decideEqMembers a b with
    | isTrue h => isTrue (h ▸ rfl)
    | isFalse h => isFalse fun e => h (by injection e)
  | .null, .bool _ | .null, .number _ | .null, .string _ | .null, .array _ | .null, .object _
  | .bool _, .null | .bool _, .number _ | .bool _, .string _ | .bool _, .array _
  | .bool _, .object _ | .number _, .null | .number _, .bool _ | .number _, .string _
  | .number _, .array _ | .number _, .object _ | .string _, .null | .string _, .bool _
  | .string _, .number _ | .string _, .array _ | .string _, .object _ | .array _, .null
  | .array _, .bool _ | .array _, .number _ | .array _, .string _ | .array _, .object _
  | .object _, .null | .object _, .bool _ | .object _, .number _ | .object _, .string _
  | .object _, .array _ => isFalse fun e => by injection e

def decideEqItems : (a b : List Json) → Decidable (a = b)
  | [], [] => isTrue rfl
  | [], _ :: _ | _ :: _, [] => isFalse nofun
  | a :: as, b :: bs => match decideEq a b, decideEqItems as bs with
    | isTrue h, isTrue hs => isTrue (h ▸ hs ▸ rfl)
    | isFalse h, _ => isFalse fun e => h (by injection e)
    | _, isFalse hs => isFalse fun e => hs (by injection e)

def decideEqMembers : (a b : List (String × Json)) → Decidable (a = b)
  | [], [] => isTrue rfl
  | [], _ :: _ | _ :: _, [] => isFalse nofun
  | (k, a) :: as, (l, b) :: bs =>
    if hk : k = l then
      match decideEq a b, decideEqMembers as bs with
      | isTrue h, isTrue hs => isTrue (hk ▸ h ▸ hs ▸ rfl)
      | isFalse h, _ => isFalse fun e => h (by injection e with e _; injection e)
      | _, isFalse hs => isFalse fun e => hs (by injection e)
    else isFalse fun e => hk (by injection e with e _; injection e)

end

instance : DecidableEq Json := decideEq

/-- Put a member where its key belongs; a key already present takes the new value. -/
def insert (key : String) (value : Json) : List (String × Json) → List (String × Json)
  | [] => [(key, value)]
  | (k, v) :: rest =>
    if key < k then (key, value) :: (k, v) :: rest
    else if key = k then (key, value) :: rest
    else (k, v) :: insert key value rest

/-- The object with these members; where a key is repeated, the last value stands. -/
def ofMembers (members : List (String × Json)) : Json :=
  .object (members.foldl (fun ms (k, v) => insert k v ms) [])

def lookup? (key : String) : List (String × Json) → Option Json
  | [] => none
  | (k, v) :: rest => if k = key then some v else lookup? key rest

def get? (key : String) : Json → Option Json
  | .object members => lookup? key members
  | _ => none

def string? : Json → Option String
  | .string s => some s
  | _ => none

def minInt : Int := -0x8000000000000000

def maxInt : Int := 0xFFFFFFFFFFFFFFFF

def nat? : Json → Option Nat
  | .number (.int i) => if 0 ≤ i then some i.toNat else none
  | _ => none

def int64? : Json → Option Int
  | .number (.int i) => if i < 0x8000000000000000 then some i else none
  | _ => none

def ofNat (n : Nat) : Json := .number (.int n)

def ofInt (i : Int) : Json := .number (.int i)

instance : OfNat Json n := ⟨.ofNat n⟩

end ShipBridge.Json
