import EngineMigrate.Json.Document
import EngineMigrate.Json.Value
import EngineMigrate.Text.Unsigned

/-!
The value of a written JSON number.  A whole number that fits 64 bits is exact; any other number is a
double, computed from the leading digits that fit a word and one power of ten.
-/
namespace EngineMigrate.Json.NumberText

open EngineMigrate.Text (wordLimit digitValue)

/-- The leading digits that fit a word, and the count of the others. -/
def absorb : Nat → List Char → Nat × Nat
  | n, [] => (n, 0)
  | n, c :: cs =>
    let next := 10 * n + digitValue c
    if next < wordLimit then absorb next cs else (n, (c :: cs).length)

/-- The digits of the fraction that still fit, each of which lowers the exponent by one. -/
def absorbFraction : Nat → Int → List Char → Nat × Int
  | n, k, [] => (n, k)
  | n, k, c :: cs =>
    let next := 10 * n + digitValue c
    if next < wordLimit then absorbFraction next (k - 1) cs else (n, k)

def topPower : Nat := 308

def power (k : Nat) : Binary64 := Binary64.ofDecimal false 1 k

/-- `x` divided by `10 ^ k`, in steps of at most `topPower`; zero stays zero. -/
def divideByPower : Nat → Binary64 → Nat → Binary64
  | 0, x, _ => x
  | fuel + 1, x, k =>
    if k ≤ topPower then x.div (power k)
    else if x.isZero then x
    else divideByPower fuel (x.div (power topPower)) (k - topPower)

/-- The double `n * 10 ^ k`, computed from the two rounded factors; too large a number has none. -/
def magnitude? (n : Nat) (k : Int) : Option Binary64 :=
  let x := Binary64.ofNat n
  if 0 ≤ k then
    if k ≤ topPower then
      let y := x.mul (power k.toNat)
      if y.isFinite then some y else none
    else if n = 0 then some x else none
  else some (divideByPower 5 x (-k).toNat)

def exponentLimit : Nat := Nat.pow 2 31

def clampExponent (k : Int) : Int := max (-exponentLimit) (min k (exponentLimit - 1))

def signed (negative : Bool) (x : Binary64) : Value := .double (if negative then x.neg else x)

def value? (t : NumberText) : Option Value :=
  let (n, dropped) := absorb 0 t.whole
  let (m, k) := absorbFraction n dropped (t.fraction.getD [])
  match t.exponent with
  | some (negative, ds) =>
    let e := Text.digitsValue ds
    if e < exponentLimit then
      (magnitude? m (clampExponent (if negative then k - e else k + e))).map (signed t.negative)
    else if m ≠ 0 && !negative then none
    else some (signed t.negative (Binary64.zero false))
  | none =>
    if t.fraction.isSome || dropped ≠ 0 then (magnitude? m k).map (signed t.negative)
    else if !t.negative then some (.integer n)
    else if 0 < n && n ≤ Nat.pow 2 63 then some (.integer (-n))
    else some (signed true (Binary64.ofNat n))

end EngineMigrate.Json.NumberText
