import Lobby.Json.Token
import Lobby.Json.Quoted
import Lobby.Number.Shortest

/-! Typed values as JSON: scalars, options, lists, and records given by name or by position. -/
namespace Lobby.Json

open Number

def intIn? (least greatest : Int) : Json → Option Int
  | .number l => do
    let i ← l.toInt?
    if least ≤ i ∧ i ≤ greatest then some i else none
  | _ => none

def int32? (v : Json) : Option Int := v.intIn? (-2147483648) 2147483647

def uint64? (v : Json) : Option UInt64 :=
  (v.intIn? 0 18446744073709551615).map fun i => UInt64.ofNat i.toNat

def octet? (v : Json) : Option UInt8 :=
  (v.intIn? 0 255).map fun i => UInt8.ofNat i.toNat

def binary32? : Json → Option Binary32
  | .number l => l.toBinary32?
  | _ => none

def text? : Json → Option String
  | .string body => Quoted.decode? body
  | _ => none

def list? {α : Type} (read : Json → Option α) : Json → Option (List α)
  | .array elements => elements.mapM read
  | _ => none

def optional? {α : Type} (read : Json → Option α) : Json → Option (Option α)
  | .null => some none
  | v => (read v).map some

abbrev Fields := String → Option Json

def named? (m : List UInt8 × Json) : Option (String × Json) :=
  (Quoted.decode? m.1).map (·, m.2)

/-- Reads the record with some field names. An object gives fields by name: its member names must
be strings, no field may come twice, and other members do not matter. An array gives them by
position and may stop early. -/
def record? (names : List String) : Json → Option Fields
  | .array elements =>
    if elements.length ≤ names.length then some fun name => (names.zip elements).lookup name
    else none
  | .object members => do
    let named ← members.mapM named?
    let known := named.filter fun m => names.contains m.1
    if (known.map (·.1)).Nodup then some fun name => known.lookup name else none
  | _ => none

def Fields.getD {α : Type} (fields : Fields) (name : String) (default : α)
    (read : Json → Option α) : Option α :=
  match fields name with
  | none => some default
  | some v => read v

def Fields.get? {α : Type} (fields : Fields) (name : String) (read : Json → Option α) :
    Option α :=
  (fields name).bind read

def ofMembers (members : List (String × Json)) : Json :=
  .object (members.map fun m => (Quoted.encode m.1, m.2))

def ofText (s : String) : Json := .string (Quoted.encode s)

/-- A word that is not finite is written `null`. -/
def ofBinary32 (x : Binary32) : Json :=
  match x.toLiteral? with
  | some l => .number l
  | none => .null

def ofOptional {α : Type} (write : α → Json) : Option α → Json
  | none => .null
  | some v => write v

def ofList {α : Type} (write : α → Json) (vs : List α) : Json :=
  .array (vs.map write)

end Lobby.Json
