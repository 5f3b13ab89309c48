import Lobby.Number.Binary

/-! Numbers as JSON spells them, and their readings as integers and as binary floats. -/
namespace Lobby.Number

/-- A spelled number: its sign, the digits before and after the point, and the signed digits of
its exponent. -/
structure Literal where
  negative : Bool
  whole : List Char
  fraction : Option (List Char)
  exponent : Option (Bool × List Char)
  deriving DecidableEq, Repr

namespace Literal

def ofNat (n : Nat) : Literal := ⟨false, Nat.toDigits 10 n, none, none⟩

def ofInt (i : Int) : Literal := ⟨decide (i < 0), Nat.toDigits 10 i.natAbs, none, none⟩

/-- The integer spelled. A point or an exponent spells none, and neither does minus zero. -/
def toInt? (l : Literal) : Option Int :=
  match l.fraction, l.exponent with
  | none, none =>
    let n := Nat.ofDigitChars 10 l.whole 0
    if l.negative then if n = 0 then none else some (-n) else some n
  | _, _ => none

def accumulate : Nat → List Char → Nat × List Char
  | m, [] => (m, [])
  | m, c :: rest =>
    let next := m * 10 + (c.toNat - '0'.toNat)
    if next < 18446744073709551616 then accumulate next rest else (m, c :: rest)

/-- The significand kept and the power of ten that scales it. Whole digits that do not fit raise
the power; digits of the fraction that do not fit are ignored. -/
def parts (l : Literal) : Nat × Int :=
  let fraction := l.fraction.getD []
  let (high, dropped) := accumulate 0 l.whole
  let (significand, ignored) := accumulate high fraction
  let spelled : Int := match l.exponent with
    | none => 0
    | some (negative, digits) =>
      let n := Nat.ofDigitChars 10 digits 0
      if negative then -n else n
  (significand, spelled + dropped.length - (fraction.length - ignored.length))

private def powerOfTen (k : Nat) : Option Scaled :=
  Format.binary64.round (Ratio.ofNat (Nat.pow 10 k))

private def product (a b : Scaled) : Option Scaled :=
  Format.binary64.round (a.ratio.mul b.ratio)

private def quotient (a b : Scaled) : Option Scaled :=
  Format.binary64.round (a.ratio.div b.ratio)

/-- Scales by a power of ten in binary64, rounding after each of at most two steps; `none` past
the largest finite value. -/
def scaleByTen (s : Scaled) : Int → Option Scaled
  | .ofNat k =>
    if k ≤ 308 then do product s (← powerOfTen k)
    else if s.mantissa = 0 then some s
    else none
  | .negSucc k =>
    let k := k + 1
    if k ≤ 308 then do quotient s (← powerOfTen k)
    else if k ≤ 616 then do quotient (← quotient s (← powerOfTen 308)) (← powerOfTen (k - 308))
    else some ⟨0, Format.binary64.finest⟩

def toBinary64? (l : Literal) : Option Scaled := do
  let (significand, power) := l.parts
  scaleByTen (← Format.binary64.round (Ratio.ofNat significand)) power

def narrow? (l : Literal) : Option Binary32 :=
  l.toBinary64?.map fun s => Binary32.ofRatio l.negative s.ratio

/-- The word read. An integer of at most 64 bits is rounded at once, all else by way of
binary64. -/
def toBinary32? (l : Literal) : Option Binary32 :=
  match l.toInt? with
  | some i =>
    if -9223372036854775808 ≤ i ∧ i < 18446744073709551616 then
      some (Binary32.ofRatio l.negative (Ratio.ofNat i.natAbs))
    else l.narrow?
  | none => l.narrow?

end Literal

end Lobby.Number
