import EngineMigrate.Text.Utf8
import EngineMigrate.Text.Unsigned
import EngineMigrate.Yaml.Block
import EngineMigrate.Yaml.Quoted

/-!
Tokens of YAML text.  Indentation becomes tokens that open and close block collections, and a colon
turns what stands before it on its line into a key after the fact.
-/
namespace EngineMigrate.Yaml

inductive Token where
  | yamlDirective (major minor : Nat)
  | tagDirective (handle start : List Char)
  | documentStart
  | documentEnd
  | blockSequence
  | blockMapping
  | blockEnd
  | flowSequence
  | flowSequenceEnd
  | flowMapping
  | flowMappingEnd
  | blockEntry
  | flowEntry
  | key
  | value
  | alias (name : List Char)
  | anchor (name : List Char)
  | tag (handle suffix : List Char)
  | scalar (style : Style) (text : List Char)
deriving DecidableEq, Repr

/-- A place that a later colon may turn into a key. -/
structure PossibleKey where
  mark : Mark
  /-- Nothing else but a key may stand there. -/
  required : Bool
  /-- The number of tokens before it. -/
  position : Nat
deriving DecidableEq, Repr

structure Lexer where
  cursor : Cursor
  /-- The latest first. -/
  tokens : List Token
  /-- The column of the innermost block collection, -1 outside all of them, and those around it. -/
  indent : Int
  outer : List Int
  /-- The possible key at this level of flow collections, and at the levels around it. -/
  possible : Option PossibleKey
  outerKeys : List (Option PossibleKey)
  /-- Whether a key may start here. -/
  keyAllowed : Bool
deriving Repr

namespace Lexer

def start (cs : List Char) : Lexer := ⟨.start cs, [], -1, [], none, [], true⟩

def inFlow (l : Lexer) : Bool := !l.outerKeys.isEmpty

def column (l : Lexer) : Nat := l.cursor.mark.column

def emit (l : Lexer) (t : Token) : Lexer := { l with tokens := t :: l.tokens }

def insertAt (l : Lexer) (n : Nat) (t : Token) : Lexer :=
  let newer := l.tokens.length - n
  { l with tokens := l.tokens.take newer ++ t :: l.tokens.drop newer }

def advance (l : Lexer) (n : Nat) : Lexer := { l with cursor := l.cursor.advance n }

def leaving (l : Lexer) (rest : List Char) : Lexer := { l with cursor := l.cursor.leaving rest }

/-- Opens a block collection at a column that is deeper than the last one. -/
def openBlock (l : Lexer) (column : Nat) (add : Lexer → Lexer) : Lexer :=
  if l.inFlow || (column : Int) ≤ l.indent then l
  else add { l with indent := column, outer := l.indent :: l.outer }

/-- Closes block collections until the innermost is not deeper than the column. -/
def closeBlocksFrom (column : Int) : Int → List Int → List Token → Int × List Int × List Token
  | indent, [], tokens => (indent, [], tokens)
  | indent, above :: outer, tokens =>
    if column < indent then closeBlocksFrom column above outer (.blockEnd :: tokens)
    else (indent, above :: outer, tokens)

def closeBlocks (l : Lexer) (column : Int) : Lexer :=
  if l.inFlow then l
  else
    let (indent, outer, tokens) := closeBlocksFrom column l.indent l.outer l.tokens
    { l with indent := indent, outer := outer, tokens := tokens }

def dropKey (l : Lexer) : Option Lexer :=
  if l.possible.any PossibleKey.required then none else some { l with possible := none }

def noteKey (l : Lexer) : Option Lexer :=
  if !l.keyAllowed then some l
  else do
    let l ← l.dropKey
    let required := !l.inFlow && l.indent == (l.column : Int)
    return { l with possible := some ⟨l.cursor.mark, required, l.tokens.length⟩ }

/-- The most characters between the start of a key and its colon. -/
def keyLimit : Nat := 1024

/-- Whether the text has gone too far for a possible key. -/
def isStale (m : Mark) (k : PossibleKey) : Bool :=
  k.mark.line < m.line || k.mark.index + keyLimit < m.index

def freshKey (m : Mark) : Option PossibleKey → Option (Option PossibleKey)
  | some k => if isStale m k then (if k.required then none else some none) else some (some k)
  | none => some none

/-- Gives up the possible keys that can no longer be keys. -/
def dropStaleKeys (l : Lexer) : Option Lexer := do
  let m := l.cursor.mark
  let possible ← freshKey m l.possible
  let outerKeys ← l.outerKeys.mapM (freshKey m)
  return { l with possible := possible, outerKeys := outerKeys }

/-- Spaces, comments and line ends: how many characters, and whether a key may start behind them.  A tab
is a space only where no key could start. -/
def gap (flow keyAllowed comment : Bool) : List Char → Nat × Bool
  | [] => (0, keyAllowed)
  | c :: cs =>
    if isBreak c then
      let out := gap flow (keyAllowed || !flow) false cs
      (out.1 + 1, out.2)
    else if comment || c = ' ' || c = '#' || (c = '\t' && (flow || !keyAllowed)) then
      let out := gap flow keyAllowed (comment || c = '#') cs
      (out.1 + 1, out.2)
    else (0, keyAllowed)

def skipGap (l : Lexer) : Lexer :=
  let (n, keyAllowed) := gap l.inFlow l.keyAllowed false l.cursor.rest
  { l.advance n with keyAllowed := keyAllowed }

def emitChar (l : Lexer) (t : Token) : Lexer := (l.advance 1).emit t

def openFlow (l : Lexer) (t : Token) : Option Lexer := do
  let l ← l.noteKey
  return { l.emitChar t with outerKeys := l.possible :: l.outerKeys, possible := none, keyAllowed := true }

def closeFlow (l : Lexer) (t : Token) : Option Lexer := do
  let l ← l.dropKey
  let l := match l.outerKeys with
    | k :: outer => { l with possible := k, outerKeys := outer }
    | [] => l
  return { l.emitChar t with keyAllowed := false }

def flowEntry (l : Lexer) : Option Lexer := do
  let l ← l.dropKey
  return { l.emitChar .flowEntry with keyAllowed := true }

def blockEntry (l : Lexer) : Option Lexer := do
  let l ← if l.inFlow then some l
    else if l.keyAllowed then some (l.openBlock l.column (emit · .blockSequence))
    else none
  let l ← l.dropKey
  return { l.emitChar .blockEntry with keyAllowed := true }

def explicitKey (l : Lexer) : Option Lexer := do
  let l ← if l.inFlow then some l
    else if l.keyAllowed then some (l.openBlock l.column (emit · .blockMapping))
    else none
  let l ← l.dropKey
  return { l.emitChar .key with keyAllowed := !l.inFlow }

/-- A colon: what stands before it becomes a key if it can. -/
def value (l : Lexer) : Option Lexer :=
  match l.possible with
  | some k =>
    let l := l.insertAt k.position .key
    let l := l.openBlock k.mark.column (insertAt · k.position .blockMapping)
    some { l.emitChar .value with possible := none, keyAllowed := false }
  | none => do
    let l ← if l.inFlow then some l
      else if l.keyAllowed then some (l.openBlock l.column (emit · .blockMapping))
      else none
    return { l.emitChar .value with keyAllowed := !l.inFlow }

def documentMarker (l : Lexer) (t : Token) : Option Lexer := do
  let l ← (l.closeBlocks (-1)).dropKey
  return { (l.advance 3).emit t with keyAllowed := false }

def endsName : List Char → Bool
  | [] => true
  | c :: _ => isSpace c || c == '?' || c == ':' || c == ',' || c == ']' || c == '}' || c == '%' ||
    c == '@' || c == '\x60'

def name (l : Lexer) (make : List Char → Token) (cs : List Char) : Option Lexer := do
  let l ← l.noteKey
  let word := cs.takeWhile isWord
  let rest := cs.dropWhile isWord
  if word.isEmpty || !endsName rest then none
  else return { (l.leaving rest).emit (make word) with keyAllowed := false }

/-- The characters of a tag; commas and brackets only between angle brackets. -/
def isTagChar (verbatim : Bool) (c : Char) : Bool :=
  isWord c || ";/?:@&=+$.%!~*'()".toList.contains c || (verbatim && (c == ',' || c == '[' || c == ']'))

/-- Escaped bytes as bytes, every other character as its own. -/
def tagBytes : List Char → Option (List UInt8)
  | [] => some []
  | '%' :: a :: b :: cs => match hexValue? a, hexValue? b with
    | some x, some y => (tagBytes cs).map (UInt8.ofNat (16 * x + y) :: ·)
    | _, _ => none
  | '%' :: _ => none
  | c :: cs => (tagBytes cs).map (UInt8.ofNat c.toNat :: ·)

/-- A part of a tag with its escapes decoded, and what follows it. -/
def readTagPart (verbatim : Bool) (cs : List Char) : Option (List Char × List Char) := do
  let bytes ← tagBytes (cs.takeWhile (isTagChar verbatim))
  let text ← Text.strict? (Text.glyphs bytes)
  return (text.toList, cs.dropWhile (isTagChar verbatim))

def readTag (cs : List Char) : Option (List Char × List Char × List Char) :=
  match cs with
  | '<' :: cs => do
    let (suffix, rest) ← readTagPart true cs
    match rest with
    | '>' :: rest => if suffix.isEmpty then none else some ([], suffix, rest)
    | _ => none
  | _ => do
    let word := cs.takeWhile isWord
    match cs.dropWhile isWord with
    | '!' :: rest =>
      let (suffix, rest) ← readTagPart false rest
      if suffix.isEmpty then none else some ('!' :: word ++ ['!'], suffix, rest)
    | rest =>
      let (more, rest) ← readTagPart false rest
      let suffix := word ++ more
      if suffix.isEmpty then some ([], ['!'], rest) else some (['!'], suffix, rest)

def tag (l : Lexer) (cs : List Char) : Option Lexer := do
  let l ← l.noteKey
  let (handle, suffix, rest) ← readTag cs
  if endsWord rest || (l.inFlow && rest.head? == some ',') then
    return { (l.leaving rest).emit (.tag handle suffix) with keyAllowed := false }
  else none

def blockScalar (l : Lexer) (style : Style) (cs : List Char) : Option Lexer := do
  let l ← l.dropKey
  let (text, rest) ← readBlock (style == .literal) l.indent cs
  return { (l.leaving rest).emit (.scalar style text) with keyAllowed := true }

def quotedScalar (l : Lexer) (style : Style) (out : Option (List Char × List Char)) :
    Option Lexer := do
  let l ← l.noteKey
  let (text, rest) ← out
  return { (l.leaving rest).emit (.scalar style text) with keyAllowed := false }

def plainScalar (l : Lexer) : Option Lexer := do
  let l ← l.noteKey
  let (text, rest, broken) ←
    readPlain l.inFlow (l.indent + 1).toNat .empty l.column l.cursor.rest
  return { (l.leaving rest).emit (.scalar .plain text) with keyAllowed := broken }

/-- At most nine digits of a version number. -/
def readVersionNumber (cs : List Char) : Option (Nat × List Char) :=
  let ds := cs.takeWhile Char.isDigit
  if ds.isEmpty || 9 < ds.length then none
  else some (Text.digitsValue ds, cs.dropWhile Char.isDigit)

def readDirective (name cs : List Char) : Option (Token × List Char) :=
  let cs := cs.dropWhile isBlank
  if name = "YAML".toList then do
    let (major, rest) ← readVersionNumber cs
    match rest with
    | '.' :: rest =>
      let (minor, rest) ← readVersionNumber rest
      return (.yamlDirective major minor, rest)
    | _ => none
  else if name = "TAG".toList then
    match cs with
    | '!' :: cs => do
      let word := cs.takeWhile isWord
      let (handle, rest) ← match cs.dropWhile isWord with
        | '!' :: rest => some ('!' :: word ++ ['!'], rest)
        | rest => if word.isEmpty then some (['!'], rest) else none
      if !rest.head?.any isBlank then none
      else
        let (start, rest) ← readTagPart true (rest.dropWhile isBlank)
        if start.isEmpty || !endsWord rest then none
        else return (.tagDirective handle start, rest)
    | _ => none
  else none

def directive (l : Lexer) (cs : List Char) : Option Lexer := do
  let l ← (l.closeBlocks (-1)).dropKey
  let name := cs.takeWhile isWord
  let rest := cs.dropWhile isWord
  if name.isEmpty || !endsWord rest then none
  else
    let (token, rest) ← readDirective name rest
    let rest ← lineEnd? (skipComment rest)
    return { (l.leaving rest).emit token with keyAllowed := false }

/-- The characters that a plain scalar does not start with, unless they are bound to what follows. -/
def isIndicator (c : Char) : Bool := "-?:,[]\x7b\x7d#&*!|>'\"%@\x60".toList.contains c

def token (l : Lexer) (c : Char) (cs : List Char) : Option Lexer :=
  if l.column = 0 && c = '%' then l.directive cs
  else if l.column = 0 && atMarker '-' (c :: cs) then l.documentMarker .documentStart
  else if l.column = 0 && atMarker '.' (c :: cs) then l.documentMarker .documentEnd
  else if c = '[' then l.openFlow .flowSequence
  else if c = '{' then l.openFlow .flowMapping
  else if c = ']' then l.closeFlow .flowSequenceEnd
  else if c = '}' then l.closeFlow .flowMappingEnd
  else if c = ',' then l.flowEntry
  else if c = '-' && endsWord cs then l.blockEntry
  else if c = '?' && (l.inFlow || endsWord cs) then l.explicitKey
  else if c = ':' && (l.inFlow || endsWord cs) then l.value
  else if c = '*' then l.name .alias cs
  else if c = '&' then l.name .anchor cs
  else if c = '!' then l.tag cs
  else if c = '|' && !l.inFlow then l.blockScalar .literal cs
  else if c = '>' && !l.inFlow then l.blockScalar .folded cs
  else if c = '\'' then l.quotedScalar .singleQuoted (readSingleQuoted .empty false cs)
  else if c = '"' then l.quotedScalar .doubleQuoted (readDoubleQuoted .none .empty false cs)
  else if isSpace c then none
  else if !isIndicator c || c = '-' || (!l.inFlow && (c = '?' || c = ':')) then l.plainScalar
  else none

/-- The tokens of the whole text; `fuel` bounds their number. -/
def run : Nat → Lexer → Option (List Token)
  | 0, _ => none
  | fuel + 1, l => do
    let l ← l.skipGap.dropStaleKeys
    match l.cursor.rest with
    | [] =>
      let l ← (l.closeBlocks (-1)).dropKey
      return l.tokens.reverse
    | c :: cs => run fuel (← (l.closeBlocks l.column).token c cs)

end Lexer

/-- A byte order mark in front is passed over, and keeps its column. -/
def skipByteOrderMark (l : Lexer) : Lexer :=
  if l.cursor.rest.head? == some '\ufeff' then l.advance 1 else l

def tokens? (text : List Char) : Option (List Token) :=
  if text.all isAllowed then
    let cs := unifyBreaks text
    (skipByteOrderMark (.start cs)).run (cs.length + 1)
  else none

end EngineMigrate.Yaml
