/-!
Punycode: texts beyond ASCII as letters, digits and hyphens.  The characters are coded in ascending
order, each by the distance from the one before, in digits whose thresholds adapt.
-/
namespace EngineMigrate.Url.Punycode

def digitChar (d : Nat) : Char := Char.ofNat (if d < 26 then 97 + d else 22 + d)

def digitValue? (c : Char) : Option Nat :=
  if 'a' ≤ c && c ≤ 'z' then some (c.toNat - 97)
  else if 'A' ≤ c && c ≤ 'Z' then some (c.toNat - 65)
  else if c.isDigit then some (c.toNat - 22)
  else none

/-- The least digit that does not end a number, at a position of the number. -/
def threshold (k bias : Nat) : Nat :=
  if k ≤ bias then 1 else if bias + 26 ≤ k then 26 else k - bias

theorem threshold_pos (k bias : Nat) : 1 ≤ threshold k bias := by
  unfold threshold
  split
  · omega
  · split <;> omega

def adaptLoop (delta k : Nat) : Nat × Nat :=
  if 455 < delta then adaptLoop (delta / 35) (k + 36) else (delta, k)
termination_by delta
decreasing_by exact Nat.div_lt_self (by omega) (by omega)

/-- The bias after a distance was coded. -/
def adapt (delta count : Nat) (first : Bool) : Nat :=
  let d := if first then delta / 700 else delta / 2
  let r := adaptLoop (d + d / count) 0
  r.2 + 36 * r.1 / (r.1 + 38)

/-- The digits of a distance, least significant first. -/
def digits (bias k q : Nat) : List Char :=
  let t := threshold k bias
  if q < t then [digitChar q]
  else digitChar (t + (q - t) % (36 - t)) :: digits bias (k + 36) ((q - t) / (36 - t))
termination_by q
decreasing_by
  have h := threshold_pos k bias
  exact Nat.lt_of_le_of_lt (Nat.div_le_self _ _) (by omega)

/-- The state of coding: distance so far, bias, and how many characters are coded. -/
structure Coder where
  delta : Nat
  bias : Nat
  done : Nat

/-- Codes the occurrences of the character `n` in a text. -/
def codeChar (basic n : Nat) : Coder → List Nat → List Char × Coder
  | s, [] => ([], s)
  | s, c :: cs =>
    if c < n then codeChar basic n { s with delta := s.delta + 1 } cs
    else if c = n then
      let out := codeChar basic n
        ⟨0, adapt s.delta (s.done + 1) (s.done == basic), s.done + 1⟩ cs
      (digits s.bias 36 s.delta ++ out.1, out.2)
    else codeChar basic n s cs

/-- Codes the characters beyond ASCII in ascending order, from `n` on. -/
def codeAll (basic : Nat) (all : List Nat) : Nat → Coder → List Nat → List Char
  | _, _, [] => []
  | n, s, m :: ms =>
    let (text, s) := codeChar basic m { s with delta := s.delta + (m - n) * (s.done + 1) } all
    text ++ codeAll basic all (m + 1) { s with delta := s.delta + 1 } ms

def distinct : List Nat → List Nat
  | a :: b :: rest => if a = b then distinct (b :: rest) else a :: distinct (b :: rest)
  | xs => xs

def encode (cs : List Char) : List Char :=
  let ascii := cs.filter fun c => c.toNat < 128
  let codes := cs.map Char.toNat
  let others := distinct ((codes.filter (128 ≤ ·)).mergeSort)
  (if ascii.isEmpty then [] else ascii ++ ['-']) ++
    codeAll ascii.length codes 128 ⟨0, 72, ascii.length⟩ others

def readDistance (bias : Nat) : Nat → Nat → Nat → List Char → Option (Nat × List Char)
  | _, _, _, [] => none
  | k, weight, value, c :: cs => do
    let d ← digitValue? c
    let value := value + d * weight
    let t := threshold k bias
    if d < t then some (value, cs) else readDistance bias (k + 36) (weight * (36 - t)) value cs

/-- Puts the coded characters in their places; `fuel` bounds their number. -/
def place : Nat → Nat → Nat → Nat → Nat → List Char → List Char → Option (List Char)
  | 0, _, _, _, _, _, _ => none
  | fuel + 1, n, i, bias, basic, out, cs =>
    if cs.isEmpty then some out
    else do
      let (distance, rest) ← readDistance bias 36 1 0 cs
      let count := out.length + 1
      let i := i + distance
      let n := n + i / count
      if n.isValidChar then
        let at_ := i % count
        place fuel n (at_ + 1) (adapt distance count (out.length == basic)) basic
          (out.take at_ ++ Char.ofNat n :: out.drop at_) rest
      else none

/-- The text of a coded label: what stands before the last hyphen is ASCII as it is. -/
def decode? (cs : List Char) : Option (List Char) :=
  let tail := (cs.reverse.takeWhile (· != '-')).reverse
  let ascii := (cs.take (cs.length - tail.length)).dropLast
  place (cs.length + 1) 128 0 72 ascii.length ascii tail

end EngineMigrate.Url.Punycode
