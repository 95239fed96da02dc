/-!
Numeric hosts: addresses of version 4, in any of their older spellings, and of version 6.
-/
namespace EngineMigrate.Url

namespace Ipv4

def digitIn? (base : Nat) (c : Char) : Option Nat :=
  let v? := if c.isDigit then some (c.toNat - 48)
    else if 'a' ≤ c && c ≤ 'f' then some (c.toNat - 87)
    else if 'A' ≤ c && c ≤ 'F' then some (c.toNat - 55)
    else none
  v?.filter (· < base)

def digitsIn? (base : Nat) (cs : List Char) : Option Nat :=
  (cs.mapM (digitIn? base)).map fun ds => ds.foldl (base * · + ·) 0

/-- A part of an address: decimal, octal behind a zero, or hexadecimal. -/
def number? : List Char → Option Nat
  | [] => none
  | '0' :: 'x' :: ds => digitsIn? 16 ds
  | '0' :: 'X' :: ds => digitsIn? 16 ds
  | '0' :: d :: ds => digitsIn? 8 (d :: ds)
  | ds => digitsIn? 10 ds

def parts (cs : List Char) : List (List Char) :=
  let ps := cs.splitOn '.'
  if ps.getLast? = some [] && 1 < ps.length then ps.dropLast else ps

/-- Whether a name must be an address: its last part is a number. -/
def endsInNumber (cs : List Char) : Bool :=
  match (parts cs).getLast? with
  | some p => !p.isEmpty && (p.all Char.isDigit || (number? p).isSome)
  | none => false

/-- The address of a name whose last part is a number: the last number fills the bytes that are left. -/
def parse? (cs : List Char) : Option Nat := do
  let ps := parts cs
  if 4 < ps.length then none
  else
    let numbers ← ps.mapM number?
    let last ← numbers.getLast?
    let firsts := numbers.dropLast
    if Nat.pow 256 (4 - firsts.length) ≤ last || firsts.any (255 < ·) then none
    else
      some (firsts.zipIdx.foldl (fun acc p => acc + p.1 * Nat.pow 256 (3 - p.2)) last)

def text (n : Nat) : List Char :=
  ".".toList.intercalate
    ([n / 16777216 % 256, n / 65536 % 256, n / 256 % 256, n % 256].map (Nat.toDigits 10))

end Ipv4

namespace Ipv6

/-- Reading an address: the pieces so far, the place of the gap, and what is left. -/
structure Reader where
  pieces : List Nat
  gap : Option Nat
deriving DecidableEq, Repr

def hexDigit? (c : Char) : Option Nat := Ipv4.digitIn? 16 c

/-- At most `n` hexadecimal digits: how many, their value, and the rest. -/
def readPiece : Nat → Nat → List Char → Nat × List Char
  | 0, value, cs => (value, cs)
  | _ + 1, value, [] => (value, [])
  | n + 1, value, c :: cs => match hexDigit? c with
    | some d => readPiece n (16 * value + d) cs
    | none => (value, c :: cs)

def byte? (cs : List Char) : Option Nat :=
  if cs.isEmpty || !cs.all Char.isDigit || (cs.head? = some '0' && 1 < cs.length) || 3 < cs.length then
    none
  else
    let n := cs.foldl (fun n c => 10 * n + (c.toNat - 48)) 0
    if n ≤ 255 then some n else none

/-- The last two pieces written as an address of version 4. -/
def dotted? (cs : List Char) : Option (List Nat) :=
  match (cs.splitOn '.').mapM byte? with
  | some [a, b, c, d] => some [256 * a + b, 256 * c + d]
  | _ => none

/-- The pieces from here on; `fuel` bounds their number. -/
def readPieces : Nat → Reader → List Char → Option Reader
  | 0, _, _ => none
  | _ + 1, r, [] => some r
  | fuel + 1, r, c :: cs =>
    if r.pieces.length = 8 then none
    else if c = ':' then
      if r.gap.isSome then none
      else readPieces fuel ⟨r.pieces ++ [0], some (r.pieces.length + 1)⟩ cs
    else
      let (value, rest) := readPiece 4 0 (c :: cs)
      match rest with
      | [] => some { r with pieces := r.pieces ++ [value] }
      | '.' :: _ =>
        if c = '.' || 6 < r.pieces.length then none
        else (dotted? (c :: cs)).map fun last => { r with pieces := r.pieces ++ last }
      | ':' :: rest =>
        if rest.isEmpty then none
        else readPieces fuel { r with pieces := r.pieces ++ [value] } rest
      | _ => none

/-- The eight pieces, zeros filling the gap, which counts as one piece of its own. -/
def fill (r : Reader) : Option (List Nat) :=
  match r.gap with
  | none => if r.pieces.length = 8 then some r.pieces else none
  | some g =>
    if 8 < r.pieces.length then none
    else some (r.pieces.take g ++ List.replicate (8 - r.pieces.length) 0 ++ r.pieces.drop g)

def parse? (cs : List Char) : Option (List Nat) :=
  match cs with
  | ':' :: ':' :: rest => readPieces 10 ⟨[0], some 1⟩ rest >>= fill
  | ':' :: _ => none
  | _ => if cs.length < 2 then none else readPieces 10 ⟨[], none⟩ cs >>= fill

def zeroRuns : List Nat → List Nat
  | [] => []
  | p :: ps =>
    let runs := zeroRuns ps
    (if p = 0 then runs.headD 0 + 1 else 0) :: runs

/-- The first of the longest runs of two or more zeros: its place and length. -/
def longestRun (ps : List Nat) : Option (Nat × Nat) :=
  let runs := zeroRuns ps
  let top := runs.foldl max 0
  if top < 2 then none else (runs.findIdx? (· == top)).map (·, top)

def pieceText (p : Nat) : List Char := Nat.toDigits 16 p

def joinPieces (ps : List Nat) : List Char := [':'].intercalate (ps.map pieceText)

def text (ps : List Nat) : List Char :=
  match longestRun ps with
  | none => joinPieces ps
  | some (i, n) => joinPieces (ps.take i) ++ ':' :: ':' :: joinPieces (ps.drop (i + n))

end Ipv6

end EngineMigrate.Url
