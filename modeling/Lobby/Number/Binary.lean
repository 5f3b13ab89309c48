/-! Binary floating point by exact integer arithmetic: formats, rounding to nearest, and the
32-bit words of the smaller format. -/
namespace Lobby.Number

/-- A binary format: the bits of its significands, and the exponents of its finest and coarsest
units. -/
structure Format where
  precision : Nat
  finest : Int
  coarsest : Int
  deriving DecidableEq, Repr

def Format.bound (f : Format) : Nat := Nat.pow 2 f.precision

def Format.binary32 : Format := ⟨24, -149, 104⟩

def Format.binary64 : Format := ⟨53, -1074, 971⟩

/-- The magnitude `mantissa * 2 ^ exponent`. -/
structure Scaled where
  mantissa : Nat
  exponent : Int
  deriving DecidableEq, Repr

structure Ratio where
  num : Nat
  den : Nat
  deriving DecidableEq, Repr

namespace Ratio

def ofNat (n : Nat) : Ratio := ⟨n, 1⟩

def mul (a b : Ratio) : Ratio := ⟨a.num * b.num, a.den * b.den⟩

def div (a b : Ratio) : Ratio := ⟨a.num * b.den, a.den * b.num⟩

def scale (r : Ratio) (base : Nat) : Int → Ratio
  | .ofNat k => ⟨r.num * base.pow k, r.den⟩
  | .negSucc k => ⟨r.num, r.den * base.pow (k + 1)⟩

def lt (a b : Ratio) : Bool := a.num * b.den < b.num * a.den

def le (a b : Ratio) : Bool := a.num * b.den ≤ b.num * a.den

/-- The nearest whole number, an exact half going to the even neighbour. -/
def nearest (r : Ratio) : Nat :=
  let q := r.num / r.den
  let twice := 2 * (r.num % r.den)
  if r.den < twice ∨ (twice = r.den ∧ q % 2 = 1) then q + 1 else q

def log2 (r : Ratio) : Int :=
  let guess : Int := r.num.log2 - r.den.log2
  if r.lt ((ofNat 1).scale 2 guess) then guess - 1 else guess

end Ratio

def Scaled.ratio (s : Scaled) : Ratio :=
  (Ratio.ofNat s.mantissa).scale 2 s.exponent

/-- The value of the format nearest to a magnitude, or `none` past the largest one. -/
def Format.round (f : Format) (r : Ratio) : Option Scaled :=
  if r.num = 0 then some ⟨0, f.finest⟩
  else
    let unit := max f.finest (r.log2 - (f.precision - 1))
    let m := (r.scale 2 (-unit)).nearest
    let s : Scaled := if m = f.bound then ⟨f.bound / 2, unit + 1⟩ else ⟨m, unit⟩
    if s.exponent ≤ f.coarsest then some s else none

structure Binary32 where
  bits : UInt32
  deriving DecidableEq, Repr

instance : Inhabited Binary32 := ⟨⟨0⟩⟩

namespace Binary32

def zero : Binary32 := ⟨0⟩

def signBit : Nat := 0x80000000

/-- The weight of the lowest exponent bit, which is also that of the leading bit of a significand
that is not subnormal. -/
def leadingBit : Nat := 0x800000

def isNegative (x : Binary32) : Bool := signBit ≤ x.bits.toNat

def exponentField (x : Binary32) : Nat := x.bits.toNat / leadingBit % 256

def fractionField (x : Binary32) : Nat := x.bits.toNat % leadingBit

def isFinite (x : Binary32) : Bool := x.exponentField < 255

def magnitude (x : Binary32) : Scaled :=
  if x.exponentField = 0 then ⟨x.fractionField, -149⟩
  else ⟨leadingBit + x.fractionField, x.exponentField - 150⟩

private def word (negative : Bool) (rest : Nat) : Binary32 :=
  ⟨UInt32.ofNat ((if negative then signBit else 0) + rest)⟩

def infinity (negative : Bool) : Binary32 := word negative (255 * leadingBit)

def nan : Binary32 := word false (255 * leadingBit + leadingBit / 2)

/-- The word of a magnitude that `Format.binary32.round` has produced. -/
def ofScaled (negative : Bool) (s : Scaled) : Binary32 :=
  if s.mantissa < leadingBit then word negative s.mantissa
  else word negative (leadingBit * (s.exponent + 150).toNat + s.mantissa % leadingBit)

/-- The word nearest to a signed magnitude; what is past the largest finite one is infinite. -/
def ofRatio (negative : Bool) (r : Ratio) : Binary32 :=
  match Format.binary32.round r with
  | some s => ofScaled negative s
  | none => infinity negative

end Binary32

end Lobby.Number
