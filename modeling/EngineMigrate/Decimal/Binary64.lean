/-!
Double-precision numbers by their bits, with exact integer arithmetic.  `round` gives the double nearest
a ratio (a tie goes to the even significand); products and quotients are rounded once.
-/
namespace EngineMigrate

/-- A double, given by its 64 bits. -/
structure Binary64 where
  bits : UInt64
deriving DecidableEq, Repr

namespace Binary64

def negative (x : Binary64) : Bool := x.bits >>> 63 == 1

def exponentBits (x : Binary64) : Nat := ((x.bits >>> 52) &&& 0x7FF).toNat

def fractionBits (x : Binary64) : Nat := (x.bits &&& 0xFFFFFFFFFFFFF).toNat

def isFinite (x : Binary64) : Bool := x.exponentBits != 0x7FF

def isNaN (x : Binary64) : Bool := x.exponentBits == 0x7FF && x.fractionBits != 0

def isZero (x : Binary64) : Bool := x.exponentBits == 0 && x.fractionBits == 0

def significand (x : Binary64) : Nat :=
  if x.exponentBits = 0 then x.fractionBits else Nat.pow 2 52 + x.fractionBits

def scale (x : Binary64) : Int :=
  if x.exponentBits = 0 then -1074 else (x.exponentBits : Int) - 1075

/-- The magnitude of a finite double as a ratio of naturals. -/
def ratio (x : Binary64) : Nat × Nat :=
  if 0 ≤ x.scale then (x.significand * Nat.pow 2 x.scale.toNat, 1)
  else (x.significand, Nat.pow 2 (-x.scale).toNat)

def signBit (negative : Bool) : Nat := if negative then Nat.pow 2 63 else 0

def zero (negative : Bool) : Binary64 := ⟨UInt64.ofNat (signBit negative)⟩

def infinity (negative : Bool) : Binary64 := ⟨UInt64.ofNat (signBit negative + 0x7FF * Nat.pow 2 52)⟩

/-- A quotient rounded to the nearest natural, a tie to the even one. -/
def roundDiv (num den : Nat) : Nat :=
  let q := num / den
  let r := num % den
  if 2 * r < den then q else if den < 2 * r then q + 1 else q + q % 2

/-- The bits of the magnitude `m * 2 ^ e`, where `m` is at most `2 ^ 53` and `e` at least -1074. -/
def pack (negative : Bool) (m : Nat) (e : Int) : Binary64 :=
  if m = Nat.pow 2 53 then
    if 971 ≤ e then infinity negative
    else ⟨UInt64.ofNat (signBit negative + (e + 1076).toNat * Nat.pow 2 52)⟩
  else if m < Nat.pow 2 52 then ⟨UInt64.ofNat (signBit negative + m)⟩
  else if 971 < e then infinity negative
  else ⟨UInt64.ofNat (signBit negative + (e + 1075).toNat * Nat.pow 2 52 + (m - Nat.pow 2 52))⟩

/-- `num / den` scaled by the power of two `-e`, as a ratio. -/
def scaled (num den : Nat) (e : Int) : Nat × Nat :=
  if 0 ≤ e then (num, den * Nat.pow 2 e.toNat) else (num * Nat.pow 2 (-e).toNat, den)

/-- The exponent at which the ratio has a significand of 53 bits, at least -1074. -/
def fitting (num den : Nat) : Int :=
  let e : Int := (Nat.log2 num : Int) - (Nat.log2 den : Int) - 53
  let (n, d) := scaled num den e
  max (if n / d < Nat.pow 2 53 then e else e + 1) (-1074)

/-- The double nearest `num / den`; past the largest one it is infinite. -/
def round (negative : Bool) (num den : Nat) : Binary64 :=
  if num = 0 || den = 0 then zero negative
  else
    let e := fitting num den
    let (n, d) := scaled num den e
    pack negative (roundDiv n d) e

def ofNat (n : Nat) : Binary64 := round false n 1

def neg (x : Binary64) : Binary64 := ⟨x.bits ^^^ 0x8000000000000000⟩

def mul (x y : Binary64) : Binary64 :=
  let (a, b) := x.ratio
  let (c, d) := y.ratio
  round (x.negative != y.negative) (a * c) (b * d)

def div (x y : Binary64) : Binary64 :=
  let (a, b) := x.ratio
  let (c, d) := y.ratio
  round (x.negative != y.negative) (a * d) (b * c)

/-- The double nearest `n * 10 ^ k`.  A power far outside the range is settled by the number of
digits, so that the size of `k` costs nothing. -/
def ofDecimal (negative : Bool) (n : Nat) (k : Int) : Binary64 :=
  if n = 0 then zero negative
  else
    let top : Int := (Nat.log2 n : Int) + 1
    if 400 < k then infinity negative
    else if 3 * k + top < -3600 then zero negative
    else if 0 ≤ k then round negative (n * Nat.pow 10 k.toNat) 1
    else round negative n (Nat.pow 10 (-k).toNat)

end Binary64

end EngineMigrate
