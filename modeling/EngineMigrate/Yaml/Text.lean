/-!
The characters of YAML text and the places in it.  Every way to end a line is read as a line feed, the
two Unicode separators apart, which end a line too but stay what they are.
-/
namespace EngineMigrate.Yaml

def isAllowed (c : Char) : Bool :=
  c == '\t' || c == '\n' || c == '\r' || (' ' ≤ c && c ≤ '~') || c == '\u0085' ||
  ('\u00a0' ≤ c && c ≤ '\ufffd') || 0x10000 ≤ c.toNat

/-- Line ends as line feeds. -/
def unifyBreaks : List Char → List Char
  | [] => []
  | '\r' :: '\n' :: cs => '\n' :: unifyBreaks cs
  | '\r' :: cs => '\n' :: unifyBreaks cs
  | '\u0085' :: cs => '\n' :: unifyBreaks cs
  | c :: cs => c :: unifyBreaks cs

def isBreak (c : Char) : Bool := c == '\n' || c == '\u2028' || c == '\u2029'

def isBlank (c : Char) : Bool := c == ' ' || c == '\t'

def isSpace (c : Char) : Bool := isBlank c || isBreak c

def isWord (c : Char) : Bool := c.isAlphanum || c == '_' || c == '-'

/-- Whether a word ends here: before a blank, a line end, or the end of the text. -/
def endsWord : List Char → Bool
  | [] => true
  | c :: _ => isSpace c

/-- Whether the line starts with three times the mark and nothing right behind it. -/
def atMarker (mark : Char) : List Char → Bool
  | a :: b :: c :: cs => a == mark && b == mark && c == mark && endsWord cs
  | _ => false

def atDocumentMarker (cs : List Char) : Bool := atMarker '-' cs || atMarker '.' cs

inductive Style where
  | plain
  | singleQuoted
  | doubleQuoted
  | literal
  | folded
deriving DecidableEq, Repr

structure Mark where
  index : Nat
  line : Nat
  column : Nat
deriving DecidableEq, Repr

def Mark.step (m : Mark) (c : Char) : Mark :=
  if isBreak c then ⟨m.index + 1, m.line + 1, 0⟩ else ⟨m.index + 1, m.line, m.column + 1⟩

structure Cursor where
  rest : List Char
  mark : Mark
deriving DecidableEq, Repr

namespace Cursor

def start (cs : List Char) : Cursor := ⟨cs, ⟨0, 0, 0⟩⟩

def advance : Nat → Cursor → Cursor
  | 0, c => c
  | _ + 1, ⟨[], m⟩ => ⟨[], m⟩
  | n + 1, ⟨x :: xs, m⟩ => advance n ⟨xs, m.step x⟩

/-- The place where only the given end of the text is left. -/
def leaving (c : Cursor) (rest : List Char) : Cursor := c.advance (c.rest.length - rest.length)

@[simp] theorem rest_advance (n : Nat) (c : Cursor) : (c.advance n).rest = c.rest.drop n := by
  induction n generalizing c with
  | zero => rfl
  | succ n ih =>
    obtain ⟨rest, m⟩ := c
    cases rest with
    | nil => rfl
    | cons x xs => exact ih _

end Cursor

end EngineMigrate.Yaml
