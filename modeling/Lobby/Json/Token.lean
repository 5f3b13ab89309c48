import Lobby.Json.Quoted
import Lobby.Number.Literal

/-! JSON values as trees that keep numbers and strings the way they are spelled, and the tokens of
JSON text. -/
namespace Lobby

open Number

/-- A JSON value. Strings and member names are held as the octets between their quotes, escapes
unread, so that what nobody reads need not denote anything. -/
inductive Json where
  | null
  | bool (value : Bool)
  | number (literal : Literal)
  | string (body : List UInt8)
  | array (elements : List Json)
  | object (members : List (List UInt8 × Json))
  deriving Repr

namespace Json

instance : Inhabited Json := ⟨.null⟩

def ofNat (n : Nat) : Json := .number (.ofNat n)

def ofInt (i : Int) : Json := .number (.ofInt i)

inductive Token where
  | openArray
  | closeArray
  | openObject
  | closeObject
  | comma
  | colon
  | null
  | bool (value : Bool)
  | number (literal : Literal)
  | string (body : List UInt8)
  deriving Repr, DecidableEq

def isBlank (b : UInt8) : Bool := b = 32 || b = 9 || b = 10 || b = 13

def isDigit (b : UInt8) : Bool := 48 ≤ b && b ≤ 57

def digits? (octets : List UInt8) : Option (List Char × List UInt8) :=
  match octets.takeWhile isDigit with
  | [] => none
  | digits => some (digits.map (fun b => Char.ofNat b.toNat), octets.dropWhile isDigit)

def sign : List UInt8 → Bool × List UInt8
  | 45 :: rest => (true, rest)
  | octets => (false, octets)

/-- The whole part of a number at the front, without a leading zero before other digits. -/
def whole? (octets : List UInt8) : Option (List Char × List UInt8) := do
  let (digits, rest) ← digits? octets
  if digits.head? = some '0' ∧ 1 < digits.length then none else some (digits, rest)

def fraction? : List UInt8 → Option (Option (List Char) × List UInt8)
  | 46 :: rest => do
    let (digits, rest) ← digits? rest
    return (some digits, rest)
  | octets => some (none, octets)

def exponentSign : List UInt8 → Bool × List UInt8
  | 43 :: rest => (false, rest)
  | 45 :: rest => (true, rest)
  | octets => (false, octets)

def exponentDigits? (octets : List UInt8) : Option ((Bool × List Char) × List UInt8) := do
  let (negative, rest) := exponentSign octets
  let (digits, rest) ← digits? rest
  return ((negative, digits), rest)

def exponent? : List UInt8 → Option (Option (Bool × List Char) × List UInt8)
  | 69 :: rest | 101 :: rest => do
    let (exponent, rest) ← exponentDigits? rest
    return (some exponent, rest)
  | octets => some (none, octets)

def literal? (octets : List UInt8) : Option (Literal × List UInt8) := do
  let (negative, rest) := sign octets
  let (whole, rest) ← whole? rest
  let (fraction, rest) ← fraction? rest
  let (exponent, rest) ← exponent? rest
  return (⟨negative, whole, fraction, exponent⟩, rest)

inductive Scan where
  | token (token : Token) (rest : List UInt8)
  | done
  | malformed

def scanToken (octets : List UInt8) : Scan :=
  match octets with
  | [] => .done
  | 91 :: rest => .token .openArray rest
  | 93 :: rest => .token .closeArray rest
  | 123 :: rest => .token .openObject rest
  | 125 :: rest => .token .closeObject rest
  | 44 :: rest => .token .comma rest
  | 58 :: rest => .token .colon rest
  | 110 :: 117 :: 108 :: 108 :: rest => .token .null rest
  | 116 :: 114 :: 117 :: 101 :: rest => .token (.bool true) rest
  | 102 :: 97 :: 108 :: 115 :: 101 :: rest => .token (.bool false) rest
  | 34 :: rest =>
    match Quoted.splitBody? [] rest with
    | some (body, rest) => .token (.string body) rest
    | none => .malformed
  | _ =>
    match literal? octets with
    | some (l, rest) => .token (.number l) rest
    | none => .malformed

def scan (octets : List UInt8) : Scan :=
  scanToken (octets.dropWhile isBlank)

/-- Reads on, with the tokens read so far in reverse. Each takes at least one octet, so fuel above
the text's length suffices. -/
def tokensOnto? : Nat → List Token → List UInt8 → Option (List Token)
  | 0, _, _ => none
  | fuel + 1, read, octets =>
    match scan octets with
    | .done => some read.reverse
    | .malformed => none
    | .token t rest => tokensOnto? fuel (t :: read) rest

def tokens? (octets : List UInt8) : Option (List Token) :=
  tokensOnto? (octets.length + 1) [] octets

end Json

end Lobby
