import Lobby.Text.Utf8

/-! The octets between the quotes of a JSON string: which are well formed, which string they
denote, and how a string is written. -/
namespace Lobby.Json.Quoted

open Text

def hexDigit? (b : UInt8) : Option Nat :=
  let n := b.toNat
  if 48 ≤ n ∧ n ≤ 57 then some (n - 48)
  else if 65 ≤ n ∧ n ≤ 70 then some (n - 55)
  else if 97 ≤ n ∧ n ≤ 102 then some (n - 87)
  else none

def hexDigit (n : Nat) : UInt8 :=
  UInt8.ofNat (if n < 10 then 48 + n else 87 + n)

def hexUnit? (a b c d : UInt8) : Option Nat := do
  return 4096 * (← hexDigit? a) + 256 * (← hexDigit? b) + 16 * (← hexDigit? c) + (← hexDigit? d)

def shortEscape? (letter : UInt8) : Option UInt8 :=
  match letter with
  | 34 => some 34
  | 92 => some 92
  | 47 => some 47
  | 98 => some 8
  | 102 => some 12
  | 110 => some 10
  | 114 => some 13
  | 116 => some 9
  | _ => none

/-- Splits what follows an opening quote at the closing one, with the body read so far in
reverse. Escapes are checked for their form only. -/
def splitBody? : List UInt8 → List UInt8 → Option (List UInt8 × List UInt8)
  | _, [] => none
  | read, b :: rest =>
    if b = 34 then some (read.reverse, rest)
    else if b < 32 then none
    else if b = 92 then
      match rest with
      | 117 :: h₁ :: h₂ :: h₃ :: h₄ :: rest =>
        match hexUnit? h₁ h₂ h₃ h₄ with
        | some _ => splitBody? (h₄ :: h₃ :: h₂ :: h₁ :: 117 :: 92 :: read) rest
        | none => none
      | letter :: rest =>
        match shortEscape? letter with
        | some _ => splitBody? (letter :: 92 :: read) rest
        | none => none
      | [] => none
    else splitBody? (b :: read) rest

def character? (n : Nat) : Option Char :=
  if h : n.isValidChar then some (Char.ofNatAux n h) else none

/-- A part of a body: an octet that stands for itself or that a one-letter escape stands for, or
the number that a numeric escape gives. -/
inductive Piece where
  | octet (octet : UInt8)
  | unit (number : Nat)
  deriving DecidableEq, Repr

def pieces? : List Piece → List UInt8 → Option (List Piece)
  | read, [] => some read.reverse
  | read, b :: rest =>
    if b = 92 then
      match rest with
      | 117 :: h₁ :: h₂ :: h₃ :: h₄ :: rest =>
        match hexUnit? h₁ h₂ h₃ h₄ with
        | some n => pieces? (.unit n :: read) rest
        | none => none
      | letter :: rest =>
        match shortEscape? letter with
        | some octet => pieces? (.octet octet :: read) rest
        | none => none
      | [] => none
    else pieces? (.octet b :: read) rest

def isHighSurrogate (n : Nat) : Bool := 0xD800 ≤ n && n < 0xDC00

def isLowSurrogate (n : Nat) : Bool := 0xDC00 ≤ n && n < 0xE000

def pair? (high low : Nat) : Option Char :=
  if isHighSurrogate high && isLowSurrogate low then
    character? (0x10000 + 1024 * (high % 1024) + low % 1024)
  else none

/-- Joins pieces to octets, with the octets joined so far in reverse. A number stands for the
character so numbered, or is a surrogate and stands for one with the next. -/
def joinOnto : List UInt8 → List Piece → Option (List UInt8)
  | joined, [] => some joined.reverse
  | joined, .octet b :: rest => joinOnto (b :: joined) rest
  | joined, .unit n :: rest =>
    match character? n with
    | some c => joinOnto ((String.utf8EncodeChar c).reverse ++ joined) rest
    | none =>
      match rest with
      | .unit m :: rest =>
        match pair? n m with
        | some c => joinOnto ((String.utf8EncodeChar c).reverse ++ joined) rest
        | none => none
      | _ => none

def unescape? (body : List UInt8) : Option (List UInt8) := do
  joinOnto [] (← pieces? [] body)

def decode? (body : List UInt8) : Option String := do
  Utf8.decode? (← unescape? body)

/-- Writes a character: quotes, backslashes and control characters escaped, all else as it
is. -/
def encodeChar (c : Char) : List UInt8 :=
  match c with
  | '"' => [92, 34]
  | '\\' => [92, 92]
  | '\x08' => [92, 98]
  | '\x0c' => [92, 102]
  | '\n' => [92, 110]
  | '\r' => [92, 114]
  | '\t' => [92, 116]
  | c =>
    if c.toNat < 32 then [92, 117, 48, 48, hexDigit (c.toNat / 16), hexDigit (c.toNat % 16)]
    else String.utf8EncodeChar c

def encode (s : String) : List UInt8 :=
  s.toList.flatMap encodeChar

end Lobby.Json.Quoted
