import EngineMigrate.Text.Utf8

/-!
JSON text by its grammar alone.  A document keeps numbers and strings as they are written, so that a
part nobody asks for is never refused for what it means, only for how it is written.
-/
namespace EngineMigrate.Json

open Text (Glyph)

/-- A number as written: sign, digits before the point, digits after it, sign and digits of the exponent. -/
structure NumberText where
  negative : Bool
  whole : List Char
  fraction : Option (List Char)
  exponent : Option (Bool × List Char)
deriving DecidableEq, Repr

/-- The syntax tree; strings are their glyphs between the quotes, escapes and all. -/
inductive Document where
  | null
  | bool (b : Bool)
  | number (n : NumberText)
  | string (raw : List Glyph)
  | array (items : List Document)
  | object (members : List (List Glyph × Document))
deriving Repr, Inhabited

namespace Document

def isSpace (g : Glyph) : Bool := g == some ' ' || g == some '\n' || g == some '\t' || g == some '\r'

def skipSpace (gs : List Glyph) : List Glyph := gs.dropWhile isSpace

def isHex (g : Glyph) : Bool := match g with
  | some c => c.isDigit || ('a' ≤ c && c ≤ 'f') || ('A' ≤ c && c ≤ 'F')
  | none => false

/-- The letters that a backslash may precede, `u` apart. -/
def isEscape (c : Char) : Bool :=
  c == '"' || c == '\\' || c == '/' || c == 'b' || c == 'f' || c == 'n' || c == 'r' || c == 't'

/-- The glyphs of a string up to its closing quote, and what follows the quote. -/
def readString : List Glyph → Option (List Glyph × List Glyph)
  | some '"' :: rest => some ([], rest)
  | some '\\' :: some 'u' :: a :: b :: c :: d :: rest =>
    if isHex a && isHex b && isHex c && isHex d then
      (readString rest).map fun out => (some '\\' :: some 'u' :: a :: b :: c :: d :: out.1, out.2)
    else none
  | some '\\' :: some e :: rest =>
    if isEscape e then (readString rest).map fun out => (some '\\' :: some e :: out.1, out.2)
    else none
  | g :: rest =>
    if g == some '\\' || (g.any fun c => decide (c.toNat < 32)) then none
    else (readString rest).map fun out => (g :: out.1, out.2)
  | [] => none

def takeDigits : List Glyph → List Char × List Glyph
  | some c :: rest =>
    if c.isDigit then let out := takeDigits rest; (c :: out.1, out.2) else ([], some c :: rest)
  | gs => ([], gs)

/-- The digits before the point: a zero stands alone. -/
def readWhole (gs : List Glyph) : Option (List Char × List Glyph) :=
  match takeDigits gs with
  | ([], _) => none
  | ('0' :: _ :: _, _) => none
  | out => some out

def readFraction : List Glyph → Option (Option (List Char) × List Glyph)
  | some '.' :: rest => match takeDigits rest with
    | ([], _) => none
    | (ds, rest) => some (some ds, rest)
  | gs => some (none, gs)

def exponentDigits (negative : Bool) (gs : List Glyph) :
    Option (Option (Bool × List Char) × List Glyph) :=
  match takeDigits gs with
  | ([], _) => none
  | (ds, rest) => some (some (negative, ds), rest)

def readExponent : List Glyph → Option (Option (Bool × List Char) × List Glyph)
  | some c :: rest =>
    if c = 'e' || c = 'E' then
      match rest with
      | some '-' :: rest => exponentDigits true rest
      | some '+' :: rest => exponentDigits false rest
      | rest => exponentDigits false rest
    else some (none, some c :: rest)
  | gs => some (none, gs)

def readUnsignedNumber (negative : Bool) (gs : List Glyph) : Option (NumberText × List Glyph) := do
  let (whole, gs) ← readWhole gs
  let (fraction, gs) ← readFraction gs
  let (exponent, gs) ← readExponent gs
  return (⟨negative, whole, fraction, exponent⟩, gs)

def readNumber : List Glyph → Option (NumberText × List Glyph)
  | some '-' :: rest => readUnsignedNumber true rest
  | gs => readUnsignedNumber false gs

def dropWord : List Char → List Glyph → Option (List Glyph)
  | [], gs => some gs
  | c :: cs, some d :: gs => if c = d then dropWord cs gs else none
  | _ :: _, _ => none

mutual

/-- A value at the front, blanks before it skipped; `fuel` bounds the tokens read. -/
def read : Nat → List Glyph → Option (Document × List Glyph)
  | 0, _ => none
  | fuel + 1, gs => match skipSpace gs with
    | some '"' :: rest => (readString rest).map fun out => (.string out.1, out.2)
    | some '[' :: rest => match skipSpace rest with
      | some ']' :: rest => some (.array [], rest)
      | rest => (readItems fuel rest).map fun out => (.array out.1, out.2)
    | some '{' :: rest => match skipSpace rest with
      | some '}' :: rest => some (.object [], rest)
      | rest => (readMembers fuel rest).map fun out => (.object out.1, out.2)
    | some 'n' :: rest => (dropWord ['u', 'l', 'l'] rest).map fun rest => (.null, rest)
    | some 't' :: rest => (dropWord ['r', 'u', 'e'] rest).map fun rest => (.bool true, rest)
    | some 'f' :: rest => (dropWord ['a', 'l', 's', 'e'] rest).map fun rest => (.bool false, rest)
    | gs => (readNumber gs).map fun out => (.number out.1, out.2)

/-- The items of an array from its first item on, the closing bracket included. -/
def readItems : Nat → List Glyph → Option (List Document × List Glyph)
  | 0, _ => none
  | fuel + 1, gs => match read fuel gs with
    | none => none
    | some (d, rest) => match skipSpace rest with
      | some ',' :: rest => (readItems fuel rest).map fun out => (d :: out.1, out.2)
      | some ']' :: rest => some ([d], rest)
      | _ => none

/-- The members of an object from its first member on, the closing brace included. -/
def readMembers : Nat → List Glyph → Option (List (List Glyph × Document) × List Glyph)
  | 0, _ => none
  | fuel + 1, gs => match skipSpace gs with
    | some '"' :: rest => match readString rest with
      | none => none
      | some (name, rest) => match skipSpace rest with
        | some ':' :: rest => match read fuel rest with
          | none => none
          | some (d, rest) => match skipSpace rest with
            | some ',' :: rest => (readMembers fuel rest).map fun out => ((name, d) :: out.1, out.2)
            | some '}' :: rest => some ([(name, d)], rest)
            | _ => none
        | _ => none
    | _ => none

end

def parse (gs : List Glyph) : Option Document :=
  match read (2 * gs.length + 2) gs with
  | some (d, rest) => if (skipSpace rest).isEmpty then some d else none
  | none => none

end Document

end EngineMigrate.Json
