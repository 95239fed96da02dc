import EngineMigrate.Decimal.Binary64

/-!
The fewest decimal digits that read back as a given double, and of those the nearest to it; an exact
tie goes to the even digit.  `Notation64` says how the digits are laid out.
-/
namespace EngineMigrate.Binary64

/-- `x ≤ y` for ratios of naturals with positive denominators. -/
def ratioLe (x y : Nat × Nat) : Bool := x.1 * y.2 ≤ y.1 * x.2

def ratioLt (x y : Nat × Nat) : Bool := x.1 * y.2 < y.1 * x.2

/-- The ends of the interval of reals that round to a finite nonzero double. -/
def interval (x : Binary64) : (Nat × Nat) × (Nat × Nat) :=
  let m := x.significand
  let quarter := x.fractionBits = 0 ∧ 1 < x.exponentBits
  let low := if quarter then 4 * m - 1 else 4 * m - 2
  let high := 4 * m + 2
  let e := x.scale - 2
  if 0 ≤ e then ((low * Nat.pow 2 e.toNat, 1), (high * Nat.pow 2 e.toNat, 1))
  else ((low, Nat.pow 2 (-e).toNat), (high, Nat.pow 2 (-e).toNat))

/-- Whether a real belongs to the interval; the ends do iff the significand is even. -/
def readsBack (x : Binary64) (r : Nat × Nat) : Bool :=
  let (low, high) := x.interval
  if x.significand % 2 = 0 then ratioLe low r && ratioLe r high
  else ratioLt low r && ratioLt r high

def decimalRatio (n : Nat) (k : Int) : Nat × Nat :=
  if 0 ≤ k then (n * Nat.pow 10 k.toNat, 1) else (n, Nat.pow 10 (-k).toNat)

/-- The point of the grid of multiples of `10 ^ k` that is nearest `x` among the two neighbours of
`x` that read back. -/
def onGrid (x : Binary64) (k : Int) : Option Nat :=
  let (num, den) := x.ratio
  let (n, d) := if 0 ≤ k then (num, den * Nat.pow 10 k.toNat) else (num * Nat.pow 10 (-k).toNat, den)
  let q := n / d
  let r := n % d
  let below := 0 < q && x.readsBack (decimalRatio q k)
  let above := x.readsBack (decimalRatio (q + 1) k)
  if below && above then
    some (if 2 * r < d then q else if d < 2 * r then q + 1 else q + q % 2)
  else if below then some q
  else if above then some (q + 1)
  else none

/-- The position of the decimal point: the least `p` with magnitude below `10 ^ p`, searched upward
from a bound that is surely too small. -/
def pointFrom (r : Nat × Nat) : Nat → Int → Int
  | 0, p => p
  | n + 1, p => if ratioLt r (decimalRatio 1 p) then p else pointFrom r n (p + 1)

def pointPosition (x : Binary64) : Int :=
  let (num, den) := x.ratio
  let guess : Int := ((Nat.log2 num : Int) - (Nat.log2 den : Int) - 1) * 30103 / 100000 - 1
  pointFrom (num, den) 8 guess

def search (x : Binary64) (p : Int) : Nat → Int → Nat × Int
  | 0, k => ((onGrid x k).getD 0, k)
  | n + 1, k => match onGrid x k with
    | some v => (v, k)
    | none => search x p n (k - 1)

def stripZeros : Nat → Nat → Int → Nat × Int
  | 0, n, k => (n, k)
  | fuel + 1, n, k => if n % 10 = 0 && 0 < n then stripZeros fuel (n / 10) (k + 1) else (n, k)

/-- Digits `n` and power `k` with `n * 10 ^ k` the shortest decimal that reads back as `x`. -/
def shortest (x : Binary64) : Nat × Int :=
  let p := x.pointPosition
  let (n, k) := search x p 17 (p - 1)
  stripZeros 20 n k

/-- The layout of JSON numbers: positional from 1e-5 up to sixteen places before the point, always
with a point or an exponent, and an exponent without padding or plus sign. -/
def positionalTop : Int := 16

def positionalBottom : Int := -5

def zeros (n : Nat) : List Char := List.replicate n '0'

/-- The digits of a number laid out around the decimal point. -/
def layout (ds : List Char) (k : Int) : List Char :=
  let p : Int := ds.length + k
  if 0 ≤ k && p ≤ positionalTop then ds ++ zeros k.toNat ++ ['.', '0']
  else if 0 < p && p ≤ positionalTop then ds.take p.toNat ++ '.' :: ds.drop p.toNat
  else if positionalBottom < p && p ≤ 0 then '0' :: '.' :: zeros (-p).toNat ++ ds
  else
    let e := (toString (p - 1)).toList
    match ds with
    | [d] => d :: 'e' :: e
    | d :: rest => d :: '.' :: rest ++ 'e' :: e
    | [] => []

def text (x : Binary64) : List Char :=
  let sign := if x.negative then ['-'] else []
  if x.isZero then sign ++ ['0', '.', '0']
  else
    let (n, k) := x.shortest
    sign ++ layout (Nat.toDigits 10 n) k

end EngineMigrate.Binary64
