import EngineMigrate.Yaml.Text

/-!
The text of block scalars.  Their lines are indented by the same amount, which the first of them settles
unless the header does; a literal keeps every line end, a folded one joins neighbouring lines.
-/
namespace EngineMigrate.Yaml

/-- What becomes of the line ends behind the last line. -/
inductive Chomping where
  /-- One is kept. -/
  | clip
  | strip
  | keep
deriving DecidableEq, Repr

namespace Chomping

def ofIndicator? (c : Char) : Option Chomping :=
  if c = '+' then some .keep else if c = '-' then some .strip else none

def apply (k : Chomping) (last : Option Char) (more : List Char) : List Char :=
  match k with
  | .strip => []
  | .clip => last.toList
  | .keep => last.toList ++ more

end Chomping

def readIndicators (cs : List Char) : Option (Chomping × Option Nat × List Char) :=
  let width? (c : Char) : Option (Option Nat) :=
    if c.isDigit then (if c = '0' then none else some (some (c.toNat - 48))) else some none
  match cs with
  | [] => some (.clip, none, [])
  | c :: rest => match Chomping.ofIndicator? c with
    | some k => match rest with
      | [] => some (k, none, [])
      | d :: rest' => (width? d).map fun w => if w.isSome then (k, w, rest') else (k, none, rest)
    | none => (width? c).map fun w =>
      if w.isNone then (.clip, none, cs)
      else match rest with
        | d :: rest' => match Chomping.ofIndicator? d with
          | some k => (k, w, rest')
          | none => (.clip, w, rest)
        | [] => (.clip, w, [])

def skipComment (cs : List Char) : List Char :=
  match cs.dropWhile isBlank with
  | '#' :: rest => rest.dropWhile (!isBreak ·)
  | rest => rest

/-- The text behind the end of this line; nothing may be left on it. -/
def lineEnd? : List Char → Option (List Char)
  | [] => some []
  | c :: cs => if isBreak c then some cs else none

/-- Empty lines and the indentation of the next line with text: the line ends, the column reached, the
deepest column seen, and what follows.  Until it is known how far lines are indented all spaces count. -/
def readGap (indent : Option Nat) : Nat → Nat → List Char →
    Option (List Char × Nat × Nat × List Char)
  | column, deepest, [] => some ([], column, deepest, [])
  | column, deepest, c :: cs =>
    let inside := indent.all (column < ·)
    if c = ' ' && inside then readGap indent (column + 1) (max deepest (column + 1)) cs
    else if c = '\t' && inside then none
    else if isBreak c then (readGap indent 0 deepest cs).map fun out => (c :: out.1, out.2)
    else some ([], column, deepest, c :: cs)

/-- What a line end and the empty lines behind it read as, before a line of text. -/
def glue (literal : Bool) (last : Option Char) (more : List Char) (blankBefore blankAfter : Bool) :
    List Char :=
  if !literal && last = some '\n' && !blankBefore && !blankAfter then
    if more.isEmpty then [' '] else more
  else last.toList ++ more

/-- The lines from a column on, and what follows them; `fuel` bounds their number. -/
def readLines (literal : Bool) (k : Chomping) (indent : Nat) : Nat → Option Char → List Char → Bool →
    Nat → List Char → Option (List Char × List Char)
  | 0, _, _, _, _, _ => none
  | fuel + 1, last, more, blankBefore, column, cs =>
    match cs with
    | [] => some (k.apply last more, [])
    | c :: _ =>
      if column ≠ indent then some (k.apply last more, cs)
      else
        let line := cs.takeWhile (!isBreak ·)
        match cs.dropWhile (!isBreak ·) with
        | [] => some (glue literal last more blankBefore (isBlank c) ++ line, [])
        | b :: rest => do
          let (more', column, _, rest) ← readGap (some indent) 0 0 rest
          let (text, rest) ← readLines literal k indent fuel (some b) more' (isBlank c) column rest
          return (glue literal last more blankBefore (isBlank c) ++ line ++ text, rest)

/-- A block scalar from its header on, inside a block at column `parent`: the text and what follows. -/
def readBlock (literal : Bool) (parent : Int) (cs : List Char) : Option (List Char × List Char) := do
  let (k, width, rest) ← readIndicators cs
  let rest ← lineEnd? (skipComment rest)
  let given := width.map fun w => (max parent 0).toNat + w
  let (more, column, deepest, rest) ← readGap given 0 0 rest
  let indent := given.getD (max deepest (max (parent + 1) 1).toNat)
  readLines literal k indent (rest.length + 1) none more false column rest

end EngineMigrate.Yaml
