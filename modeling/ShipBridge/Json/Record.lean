import ShipBridge.Json.Reader

/-!
# Records

A record is written as an object whose keys name its fields in any order, or as an array that
lists them in their own order. Keys that name no field are passed over; a field named twice, and
a required field that is missing, spoil the record. In the array form the optional fields at the
end may be left off, and nothing may follow the last field.

A tagged record also carries a name that selects what its fields are: the value of a certain key
of the object, or the first item of the array. The name is checked as soon as it has been read,
before the rest of the text is looked at.
-/

namespace ShipBridge.Json

structure Field where
  name : String
  required : Bool := true
deriving Repr

def Field.optional (name : String) : Field := ⟨name, false⟩

inductive Record where
  | members (ms : List (String × Json))
  | items (js : List Json)

def record? : Json → Option Record
  | .object ms => some (.members ms)
  | .array js => some (.items js)
  | _ => none

/-- The value of one field: absent, or present once. -/
def memberField? (f : Field) (ms : List (String × Json)) : Option (Option Json) :=
  match ms.filter (fun (k, _) => k == f.name) with
  | [] => if f.required then none else some none
  | [(_, j)] => some (some j)
  | _ => none

def itemFields? : List Field → List Json → Option (List (Option Json))
  | [], [] => some []
  | [], _ :: _ => none
  | f :: fs, [] => if f.required then none else (itemFields? fs []).map (none :: ·)
  | _ :: fs, j :: js => (itemFields? fs js).map (some j :: ·)

def Record.values? (fields : List Field) : Record → Option (List (Option Json))
  | .members ms => fields.mapM fun f => memberField? f ms
  | .items js => itemFields? fields js

/-- The name of a tagged record: a string that `known` accepts. A bracket in its place is
refused before what it opens is read. -/
def readTag (known : String → Bool) (cs : List Char) : Reading String :=
  match skipSpace cs with
  | [] => .error .cutShort
  | '"' :: cs => match readString cs with
    | .error e => .error e
    | .ok (tag, rest) => if known tag then .ok (tag, rest) else .error .shape
  | '[' :: _ | '\x7b' :: _ => .error .shape
  | cs => match readRoot cs with
    | .error e => .error e
    | .ok _ => .error .shape

/-- The members of a tagged object from the next key on; at most `depth` arrays and objects may be
open in their values. -/
def readTaggedMembers (key : String) (known : String → Bool) (depth fuel : Nat)
    (tag : Option String) (acc : List (String × Json)) (cs : List Char) :
    Reading (String × Record) :=
  match fuel with
  | 0 => .error .notJson
  | fuel + 1 => match cs with
    | '"' :: cs => match readString cs with
      | .error e => .error e
      | .ok (name, cs) =>
        if name = key then
          if tag.isSome then .error .shape
          else match readColon cs with
            | .error e => .error e
            | .ok cs => match readTag known cs with
              | .error e => .error e
              | .ok (found, cs) => match readSeparator '\x7d' cs with
                | .error e => .error e
                | .ok (.close rest) => .ok ((found, .members acc.reverse), rest)
                | .ok (.more rest) => readTaggedMembers key known depth fuel (some found) acc rest
        else match readColon cs with
          | .error e => .error e
          | .ok cs => match readTree (stepsFor cs) depth cs with
            | .error e => .error e
            | .ok (j, cs) => match readSeparator '\x7d' cs with
              | .error e => .error e
              | .ok (.close rest) => match tag with
                | none => .error .shape
                | some found => .ok ((found, .members ((name, j) :: acc).reverse), rest)
              | .ok (.more rest) =>
                readTaggedMembers key known depth fuel tag ((name, j) :: acc) rest
    | _ => .error .notJson

/-- A tagged record at the front of a text, where an object or array may open that holds at most
`depth` others, one in the other. A value that is neither object nor array is refused as soon as it
has been read. -/
def readTagged (key : String) (known : String → Bool) (depth : Nat) (cs : List Char) :
    Reading (String × Record) :=
  match skipSpace cs with
  | '\x7b' :: cs => match skipSpace cs with
    | [] => .error .cutShort
    | '\x7d' :: _ => .error .shape
    | cs => readTaggedMembers key known depth cs.length none [] cs
  | '[' :: cs => match skipSpace cs with
    | [] => .error .cutShort
    | ']' :: _ => .error .shape
    | cs => match readTag known cs with
      | .error e => .error e
      | .ok (tag, cs) => match readSeparator ']' cs with
        | .error e => .error e
        | .ok (.close rest) => .ok ((tag, .items []), rest)
        | .ok (.more rest) => match readItems (stepsFor rest) depth [] rest with
          | .error e => .error e
          | .ok (js, rest) => .ok ((tag, .items js), rest)
  | cs => match readRoot cs with
    | .error e => .error e
    | .ok _ => .error .shape

def decodeTagged (key : String) (known : String → Bool) (decode : String → Record → Option α)
    (cs : List Char) : Except Fault α := do
  let ((tag, record), rest) ← readTagged key known (depthLimit - 1) cs
  match decode tag record with
  | none => .error .shape
  | some a =>
    expectEnd rest
    return a

end ShipBridge.Json
