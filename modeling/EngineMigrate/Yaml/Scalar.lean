import EngineMigrate.Decimal.Binary64
import EngineMigrate.Text.Unsigned
import EngineMigrate.Yaml.Quoted

/-!
What plain scalars stand for: nothing, truth values, whole numbers in four bases, other numbers, or
texts.  Digits behind a leading zero are a text.
-/
namespace EngineMigrate.Yaml.Scalar

inductive Meaning where
  | null
  | bool (b : Bool)
  | integer (i : Int)
  /-- A whole number that no value holds. -/
  | outOfRange
  | double (x : Binary64)
  | text
deriving DecidableEq, Repr

def isNull (s : String) : Bool := s == "null" || s == "Null" || s == "NULL" || s == "~"

def bool? (s : String) : Option Bool :=
  if s = "true" || s = "True" || s = "TRUE" then some true
  else if s = "false" || s = "False" || s = "FALSE" then some false
  else none

/-- Two or more digits of which the first is zero, behind at most one sign. -/
def isPadded (cs : List Char) : Bool :=
  let digits := match cs with
    | '+' :: r => r
    | '-' :: r => r
    | r => r
  match digits with
  | '0' :: d :: r => (d :: r).all Char.isDigit
  | _ => false

def digitIn? (base : Nat) (c : Char) : Option Nat := (hexValue? c).filter (· < base)

def digitsIn? (base : Nat) (cs : List Char) : Option Nat :=
  if cs.isEmpty then none else (cs.mapM (digitIn? base)).map fun ds => ds.foldl (base * · + ·) 0

/-- The bases other than ten, by the letter behind the zero. -/
def base? (c : Char) : Option Nat :=
  if c = 'x' then some 16 else if c = 'o' then some 8 else if c = 'b' then some 2 else none

/-- A number without a sign, decimal or with the mark of its base. -/
def magnitude? (cs : List Char) : Option Nat :=
  match cs with
  | '0' :: c :: r => match base? c with
    | some base => digitsIn? base r
    | none => if isPadded cs then none else digitsIn? 10 cs
  | _ => digitsIn? 10 cs

def unsigned? (s : String) : Option Nat :=
  match s.toList with
  | '+' :: r => magnitude? r
  | cs => magnitude? cs

def negated? (s : String) : Option Nat :=
  match s.toList with
  | '-' :: r => magnitude? r
  | _ => none

/-- The numbers that values hold, and those that are still read as whole numbers. -/
def wordLimit : Nat := Nat.pow 2 64

def wideLimit : Nat := Nat.pow 2 128

def word? (s : String) : Option Nat := (unsigned? s).filter (· < wordLimit)

/-- The meaning of a whole number; larger ones are none. -/
def integer? (s : String) : Option Meaning :=
  match unsigned? s with
  | some n =>
    if n < wordLimit then some (.integer n) else if n < wideLimit then some .outOfRange else none
  | none => match negated? s with
    | some n =>
      if n ≤ wordLimit / 2 then some (.integer (-n))
      else if n ≤ wideLimit / 2 then some .outOfRange else none
    | none => none

def exponent? : List Char → Option Int
  | [] => some 0
  | c :: cs =>
    if c = 'e' || c = 'E' then
      let (negative, ds) := match cs with
        | '-' :: r => (true, r)
        | '+' :: r => (false, r)
        | r => (false, r)
      if ds.isEmpty || !ds.all Char.isDigit then none
      else some (if negative then -(Text.digitsValue ds : Int) else Text.digitsValue ds)
    else none

/-- A decimal number: digits with at most one point among or around them, and an exponent. -/
def decimal? (negative : Bool) (cs : List Char) : Option Binary64 := do
  let whole := cs.takeWhile Char.isDigit
  let (fraction, rest) := match cs.dropWhile Char.isDigit with
    | '.' :: r => (r.takeWhile Char.isDigit, r.dropWhile Char.isDigit)
    | r => ([], r)
  if whole.isEmpty && fraction.isEmpty then none
  else
    let e ← exponent? rest
    return .ofDecimal negative (Text.digitsValue (whole ++ fraction)) (e - fraction.length)

def notANumber : Binary64 := ⟨0x7FF8000000000000⟩

/-- A number that need not be whole; one too large for a double is none. -/
def double? (s : String) : Option Binary64 :=
  if s = ".nan" || s = ".NaN" || s = ".NAN" then some notANumber
  else
    let (negative, cs) := match s.toList with
      | '-' :: r => (true, r)
      | '+' :: r => (false, r)
      | r => (false, r)
    if cs = ".inf".toList || cs = ".Inf".toList || cs = ".INF".toList then some (.infinity negative)
    else (decimal? negative cs).filter Binary64.isFinite

def meaning (s : String) : Meaning :=
  if s.isEmpty || isNull s then .null
  else match bool? s with
    | some b => .bool b
    | none => match integer? s with
      | some m => m
      | none =>
        if isPadded s.toList then .text
        else match double? s with
          | some x => .double x
          | none => .text

end EngineMigrate.Yaml.Scalar
