import Lobby.Number.Literal

/-! The shortest decimal that reads back to the same binary32 value, and its spelling. -/
namespace Lobby.Number

/-- The magnitudes that round to a given one, between two bounds that count when its mantissa is
even. -/
structure Interval where
  low : Ratio
  high : Ratio
  closed : Bool
  deriving Repr

def Interval.contains (i : Interval) (r : Ratio) : Bool :=
  if i.closed then i.low.le r && r.le i.high else i.low.lt r && r.lt i.high

/-- The interval of a positive binary32 magnitude. Below a power of two the gap is half as
wide. -/
def Scaled.interval (s : Scaled) : Interval where
  low :=
    if s.mantissa = Binary32.leadingBit ∧ -149 < s.exponent then
      (Ratio.ofNat (4 * s.mantissa - 1)).scale 2 (s.exponent - 2)
    else (Ratio.ofNat (2 * s.mantissa - 1)).scale 2 (s.exponent - 1)
  high := (Ratio.ofNat (2 * s.mantissa + 1)).scale 2 (s.exponent - 1)
  closed := s.mantissa % 2 = 0

structure Decimal where
  digits : Nat
  power : Int
  deriving DecidableEq, Repr

def Decimal.ratio (d : Decimal) : Ratio :=
  (Ratio.ofNat d.digits).scale 10 d.power

/-- On the grid of multiples of `10 ^ power`, the neighbour of `r` that lies in the interval; of
two the nearer, and the even one when they are equally near. -/
def Interval.onGrid? (i : Interval) (r : Ratio) (power : Int) : Option Decimal :=
  let steps := r.scale 10 (-power)
  let below : Decimal := ⟨steps.num / steps.den, power⟩
  let above : Decimal := ⟨below.digits + 1, power⟩
  match i.contains below.ratio, i.contains above.ratio with
  | true, true => some ⟨steps.nearest, power⟩
  | true, false => some below
  | false, true => some above
  | false, false => none

def Interval.firstOnGrid (i : Interval) (r : Ratio) : Nat → Int → Decimal
  | 0, power => ⟨0, power⟩
  | fuel + 1, power =>
    match i.onGrid? r power with
    | some d => d
    | none => i.firstOnGrid r fuel (power - 1)

/-- The shortest decimal in the interval of a positive binary32 magnitude. Its coarsest grid is
that of `10 ^ 39`, above every binary32 value, and on that of `10 ^ -54` every interval has a
point. -/
def Scaled.shortest (s : Scaled) : Decimal :=
  s.interval.firstOnGrid s.ratio 94 39

namespace Binary32

/-- Spells significant digits with the leading one worth `10 ^ exponent`: positional with a
fraction of at least one digit from `10 ^ -6` to below `10 ^ 13`, scientific outside. -/
def spell (negative : Bool) (digits : List Char) (exponent : Int) : Literal :=
  if 0 ≤ exponent ∧ exponent ≤ 12 then
    let n := exponent.toNat + 1
    let fraction := digits.drop n
    { negative
      whole := digits.take n ++ List.replicate (n - digits.length) '0'
      fraction := some (if fraction = [] then ['0'] else fraction)
      exponent := none }
  else if -6 ≤ exponent ∧ exponent < 0 then
    { negative
      whole := ['0']
      fraction := some (List.replicate (exponent.natAbs - 1) '0' ++ digits)
      exponent := none }
  else
    { negative
      whole := digits.take 1
      fraction := if digits.length ≤ 1 then none else some (digits.drop 1)
      exponent := some (decide (exponent < 0), Nat.toDigits 10 exponent.natAbs) }

def dropTrailingZeros (digits : List Char) : List Char :=
  (digits.reverse.dropWhile (· == '0')).reverse

def toLiteral? (x : Binary32) : Option Literal :=
  if x.isFinite then
    let s := x.magnitude
    if s.mantissa = 0 then some ⟨x.isNegative, ['0'], some ['0'], none⟩
    else
      let d := s.shortest
      let digits := Nat.toDigits 10 d.digits
      some (spell x.isNegative (dropTrailingZeros digits) (d.power + digits.length - 1))
  else none

end Binary32

end Lobby.Number
