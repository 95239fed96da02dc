import EngineMigrate.Yaml.Scalar

/-!
Writing records as YAML.  A text is written plain if it then reads back as that text, over several lines
if it has them, and between quotes otherwise.
-/
namespace EngineMigrate.Yaml

def isPrintable (c : Char) : Bool :=
  c == '\n' || (' ' ≤ c && c ≤ '~') || ('\u00a0' ≤ c && c ≤ '\ufffd' && c != '\ufeff') ||
  0x10000 ≤ c.toNat

/-- Whether two characters stand next to each other of which the predicates hold. -/
def hasPair (p q : Char → Bool) : List Char → Bool
  | a :: b :: cs => (p a && q b) || hasPair p q (b :: cs)
  | _ => false

def isSpaceChar (c : Char) : Bool := c == ' '

/-- Characters that a plain text cannot start with, whatever follows. -/
def isLeadingIndicator (c : Char) : Bool := "#,[]\x7b\x7d&*!|>'\"%@\x60".toList.contains c

/-- Whether a plain text would be taken for something else: by its start, a colon before a blank or the
end, or a number sign behind a blank. -/
def hasIndicator (cs : List Char) : Bool :=
  let atStart := match cs with
    | [] => false
    | c :: rest => isLeadingIndicator c || ((c == '?' || c == '-') && endsWord rest)
  atStart || ['-', '-', '-'].isPrefixOf cs || ['.', '.', '.'].isPrefixOf cs ||
    hasPair (· == ':') isSpace cs || cs.getLast? == some ':' || hasPair isSpace (· == '#') cs

def hasOuterSpace (cs : List Char) : Bool := cs.head? == some ' ' || cs.getLast? == some ' '

def plainAllowed (cs : List Char) : Bool :=
  cs.all isPrintable && !cs.any isBreak && !hasOuterSpace cs && !hasIndicator cs

def singleAllowed (cs : List Char) : Bool :=
  cs.all isPrintable && !hasPair isBreak isSpaceChar cs && !hasPair isSpaceChar isBreak cs

def literalAllowed (cs : List Char) : Bool :=
  cs.all isPrintable && !hasPair isSpaceChar isBreak cs && cs.getLast? != some ' '

def styleOf (s : String) : Style :=
  let cs := s.toList
  if cs.contains '\n' then if literalAllowed cs then .literal else .doubleQuoted
  else if Scalar.meaning s = .text && !Scalar.isPadded cs && plainAllowed cs then .plain
  else if singleAllowed cs then .singleQuoted
  else .doubleQuoted

def indentation (n : Nat) : List Char := List.replicate n ' '

/-- A text between single quotes, over several lines where it has line ends. -/
def singleBody (indent : Nat) (broken : Bool) : List Char → List Char
  | [] => if broken then indentation indent else []
  | c :: cs =>
    if isBreak c then c :: singleBody indent true cs
    else (if broken then indentation indent else []) ++
      (if c = '\'' then ['\'', '\''] else [c]) ++ singleBody indent false cs

def hexDigit (n : Nat) : Char := Char.ofNat (if n < 10 then 48 + n else 55 + n)

def hexDigits : Nat → Nat → List Char
  | 0, _ => []
  | width + 1, n => hexDigits width (n / 16) ++ [hexDigit (n % 16)]

/-- An escape: a letter where there is one, else the code point. -/
def escape (c : Char) : List Char :=
  if c = '\x00' then ['\\', '0']
  else if c = '\x07' then ['\\', 'a']
  else if c = '\x08' then ['\\', 'b']
  else if c = '\t' then ['\\', 't']
  else if c = '\n' then ['\\', 'n']
  else if c = '\x0b' then ['\\', 'v']
  else if c = '\x0c' then ['\\', 'f']
  else if c = '\r' then ['\\', 'r']
  else if c = '\x1b' then ['\\', 'e']
  else if c = '"' then ['\\', '"']
  else if c = '\\' then ['\\', '\\']
  else if c = '\u0085' then ['\\', 'N']
  else if c = '\u2028' then ['\\', 'L']
  else if c = '\u2029' then ['\\', 'P']
  else if c.toNat < 0x100 then '\\' :: 'x' :: hexDigits 2 c.toNat
  else if c.toNat < 0x10000 then '\\' :: 'u' :: hexDigits 4 c.toNat
  else '\\' :: 'U' :: hexDigits 8 c.toNat

def doubleChar (c : Char) : List Char :=
  if !isPrintable c || isBreak c || c = '"' || c = '\\' then escape c else [c]

/-- The lines of a literal, each behind its indentation. -/
def literalBody (indent : Nat) (lineStart : Bool) : List Char → List Char
  | [] => if lineStart then [] else ['\n']
  | c :: cs =>
    if isBreak c then c :: literalBody indent true cs
    else (if lineStart then indentation indent else []) ++ c :: literalBody indent false cs

/-- The levels of a written record are this far apart. -/
def indentStep : Nat := 2

/-- What a literal says about its indentation and the line ends at its end. -/
def literalHints (cs : List Char) : List Char :=
  let indent := if cs.head?.any fun c => c == ' ' || isBreak c then ['2'] else []
  let chomping := match cs.reverse with
    | [] => ['-']
    | c :: before =>
      if !isBreak c then ['-']
      else if before.isEmpty || before.head?.any isBreak then ['+'] else []
  indent ++ chomping

def textLine (indent : Nat) (s : String) : List Char :=
  let cs := s.toList
  match styleOf s with
  | .plain => cs ++ ['\n']
  | .singleQuoted => '\'' :: singleBody indent false cs ++ ['\'', '\n']
  | .literal => '|' :: literalHints cs ++ '\n' :: literalBody indent true cs
  | _ => '"' :: cs.flatMap doubleChar ++ ['"', '\n']

def dropLineEnd (cs : List Char) : List Char := cs.dropLast

/-- The longest key that stands on the line of its value, in bytes. -/
def simpleKeyLimit : Nat := 128

def isSimpleKey (name : String) : Bool :=
  !name.toList.any isBreak && name.utf8ByteSize ≤ simpleKeyLimit

/-- What a field of a record holds. -/
inductive Field where
  /-- A number or a truth value, by its text. -/
  | word (text : String)
  | text (s : String)
  | record (fields : List (String × Field))

def keyText (level : Nat) (name : String) : List Char :=
  if isSimpleKey name then
    indentation level ++ dropLineEnd (textLine (level + indentStep) name) ++ [':']
  else
    indentation level ++ '?' :: ' ' :: textLine (level + indentStep) name ++ indentation level ++ [':']

mutual

def Field.render (level : Nat) : Field → List Char
  | .word text => ' ' :: text.toList ++ ['\n']
  | .text s => ' ' :: textLine (level + indentStep) s
  | .record [] => " \x7b\x7d\n".toList
  | .record (f :: fs) => '\n' :: renderFields (level + indentStep) (f :: fs)

def renderFields (level : Nat) : List (String × Field) → List Char
  | [] => []
  | (name, f) :: fs => keyText level name ++ f.render level ++ renderFields level fs

end

def render (fields : List (String × Field)) : String := String.ofList (renderFields 0 fields)

end EngineMigrate.Yaml
