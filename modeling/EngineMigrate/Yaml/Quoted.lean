import EngineMigrate.Yaml.Text

/-!
The text of scalars that are written within lines: quoted ones and plain ones.  Blanks around a line end
vanish; a single line end reads as a space and each further one as itself.
-/
namespace EngineMigrate.Yaml

/-- What stands between two pieces of a text: blanks, or line ends once there is one. -/
structure Spacing where
  blanks : List Char
  /-- A line end has been passed, written out or escaped. -/
  broken : Bool
  first : Option Char
  more : List Char
deriving DecidableEq, Repr

namespace Spacing

def empty : Spacing := ⟨[], false, none, []⟩

/-- Behind an escaped line end, which stands for nothing. -/
def escaped : Spacing := ⟨[], true, none, []⟩

def isEmpty (s : Spacing) : Bool := s.blanks.isEmpty && !s.broken

def add (s : Spacing) (c : Char) : Spacing :=
  if isBreak c then
    if s.broken then { s with more := s.more ++ [c] } else ⟨[], true, some c, []⟩
  else if s.broken then s
  else { s with blanks := s.blanks ++ [c] }

def folded (s : Spacing) : List Char :=
  if !s.broken then s.blanks
  else if s.first = some '\n' then
    if s.more.isEmpty then [' '] else s.more
  else s.first.toList ++ s.more

end Spacing

def readSingleQuoted (s : Spacing) (lineStart : Bool) : List Char → Option (List Char × List Char)
  | [] => none
  | c :: cs =>
    if lineStart && atDocumentMarker (c :: cs) then none
    else if c = '\'' then
      match cs with
      | '\'' :: rest =>
        (readSingleQuoted .empty false rest).map fun out => (s.folded ++ '\'' :: out.1, out.2)
      | _ => some (s.folded, cs)
    else if isSpace c then readSingleQuoted (s.add c) (isBreak c) cs
    else (readSingleQuoted .empty false cs).map fun out => (s.folded ++ c :: out.1, out.2)

/-- Where a double-quoted text stands with an escape. -/
inductive Escape where
  | none
  | backslash
  /-- Hexadecimal digits still to come, and the value of those read. -/
  | code (left value : Nat)
deriving DecidableEq, Repr

def escapedChar? (c : Char) : Option Char :=
  match c with
  | '0' => some '\x00'
  | 'a' => some '\x07'
  | 'b' => some '\x08'
  | 't' => some '\t'
  | '\t' => some '\t'
  | 'n' => some '\n'
  | 'v' => some '\x0b'
  | 'f' => some '\x0c'
  | 'r' => some '\r'
  | 'e' => some '\x1b'
  | ' ' => some ' '
  | '"' => some '"'
  | '/' => some '/'
  | '\\' => some '\\'
  | 'N' => some '\u0085'
  | '_' => some '\u00a0'
  | 'L' => some '\u2028'
  | 'P' => some '\u2029'
  | _ => none

/-- The number of digits of an escape by code point. -/
def codeLength? (c : Char) : Option Nat :=
  if c = 'x' then some 2 else if c = 'u' then some 4 else if c = 'U' then some 8 else none

def hexValue? (c : Char) : Option Nat :=
  if c.isDigit then some (c.toNat - 48)
  else if 'a' ≤ c && c ≤ 'f' then some (c.toNat - 87)
  else if 'A' ≤ c && c ≤ 'F' then some (c.toNat - 55)
  else none

def readDoubleQuoted (e : Escape) (s : Spacing) (lineStart : Bool) :
    List Char → Option (List Char × List Char)
  | [] => none
  | c :: cs =>
    match e with
    | .backslash =>
      if isBreak c then readDoubleQuoted .none .escaped true cs
      else match codeLength? c with
        | some n => readDoubleQuoted (.code n 0) .empty false cs
        | none => match escapedChar? c with
          | some x => (readDoubleQuoted .none .empty false cs).map fun out => (x :: out.1, out.2)
          | none => none
    | .code left value =>
      match hexValue? c with
      | none => none
      | some d =>
        let value := 16 * value + d
        if left ≤ 1 then
          if value.isValidChar then
            (readDoubleQuoted .none .empty false cs).map fun out => (Char.ofNat value :: out.1, out.2)
          else none
        else readDoubleQuoted (.code (left - 1) value) .empty false cs
    | .none =>
      if lineStart && atDocumentMarker (c :: cs) then none
      else if c = '"' then some (s.folded, cs)
      else if c = '\\' then
        (readDoubleQuoted .backslash .empty false cs).map fun out => (s.folded ++ out.1, out.2)
      else if isSpace c then readDoubleQuoted .none (s.add c) (isBreak c) cs
      else (readDoubleQuoted .none .empty false cs).map fun out => (s.folded ++ c :: out.1, out.2)

def isFlowIndicator (c : Char) : Bool := c == ',' || c == '[' || c == ']' || c == '{' || c == '}'

/-- Whether a plain text ends before this text: at a colon that ends a word, or in a flow collection at
an indicator. -/
def endsPlain (flow : Bool) : List Char → Bool
  | [] => true
  | c :: cs => (c == ':' && endsWord cs) || (flow && isFlowIndicator c)

/-- In a flow collection a colon must not stand right before an indicator. -/
def misplacedColon (flow : Bool) : List Char → Bool
  | ':' :: c :: _ => flow && (isFlowIndicator c || c == '?')
  | _ => false

/-- A plain text from a column on: the text, what follows it and the space behind it, and whether that
space holds a line end.  A line that is indented less than `indent` is not part of it. -/
def readPlain (flow : Bool) (indent : Nat) (s : Spacing) (column : Nat) :
    List Char → Option (List Char × List Char × Bool)
  | [] => some ([], [], s.broken)
  | c :: cs =>
    if isSpace c then
      if c = '\t' && s.broken && column < indent then none
      else readPlain flow indent (s.add c) (if isBreak c then 0 else column + 1) cs
    else if !s.isEmpty && ((!flow && column < indent) || c = '#' ||
        (column = 0 && atDocumentMarker (c :: cs))) then some ([], c :: cs, s.broken)
    else if misplacedColon flow (c :: cs) then none
    else if endsPlain flow (c :: cs) then some ([], c :: cs, s.broken)
    else (readPlain flow indent .empty (column + 1) cs).map fun out =>
      (s.folded ++ c :: out.1, out.2)

end EngineMigrate.Yaml
