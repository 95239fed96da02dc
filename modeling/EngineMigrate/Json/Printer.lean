import EngineMigrate.Json.Value
import EngineMigrate.Decimal.Shortest
import EngineMigrate.Text.Unsigned

/-!
The two written forms of a JSON value: compact, and laid out over lines with two spaces for each
level, where an empty array or object stays on its line.
-/
namespace EngineMigrate.Json

def hexDigit (n : Nat) : Char := Char.ofNat (if n < 10 then 48 + n else 87 + n)

def escaped (c : Char) : List Char :=
  if c = '"' then ['\\', '"']
  else if c = '\\' then ['\\', '\\']
  else if c = '\x08' then ['\\', 'b']
  else if c = '\x0c' then ['\\', 'f']
  else if c = '\n' then ['\\', 'n']
  else if c = '\r' then ['\\', 'r']
  else if c = '\t' then ['\\', 't']
  else if c.toNat < 32 then ['\\', 'u', '0', '0', hexDigit (c.toNat / 16), hexDigit (c.toNat % 16)]
  else [c]

def quoted (cs : List Char) : List Char := '"' :: cs.flatMap escaped ++ ['"']

def integerText (i : Int) : List Char :=
  if 0 ≤ i then Text.decimal i.toNat else '-' :: Text.decimal i.natAbs

namespace Value

mutual

def compactChars : Value → List Char
  | .null => ['n', 'u', 'l', 'l']
  | .bool true => ['t', 'r', 'u', 'e']
  | .bool false => ['f', 'a', 'l', 's', 'e']
  | .integer i => integerText i
  | .double x => x.text
  | .string s => quoted s.toList
  | .array items => '[' :: compactItems items ++ [']']
  | .object members => '{' :: compactMembers members ++ ['}']

def compactItems : List Value → List Char
  | [] => []
  | [v] => compactChars v
  | v :: w :: vs => compactChars v ++ ',' :: compactItems (w :: vs)

def compactMembers : List (String × Value) → List Char
  | [] => []
  | [(n, v)] => quoted n.toList ++ ':' :: compactChars v
  | (n, v) :: m :: ms => quoted n.toList ++ ':' :: compactChars v ++ ',' :: compactMembers (m :: ms)

end

def newLine (level : Nat) : List Char := '\n' :: List.replicate (2 * level) ' '

mutual

/-- The form over lines; `level` is the level of the value itself. -/
def prettyChars (level : Nat) : Value → List Char
  | .null => ['n', 'u', 'l', 'l']
  | .bool true => ['t', 'r', 'u', 'e']
  | .bool false => ['f', 'a', 'l', 's', 'e']
  | .integer i => integerText i
  | .double x => x.text
  | .string s => quoted s.toList
  | .array [] => ['[', ']']
  | .array (v :: vs) => '[' :: prettyItems (level + 1) (v :: vs) ++ newLine level ++ [']']
  | .object [] => ['{', '}']
  | .object (m :: ms) => '{' :: prettyMembers (level + 1) (m :: ms) ++ newLine level ++ ['}']

def prettyItems (level : Nat) : List Value → List Char
  | [] => []
  | [v] => newLine level ++ prettyChars level v
  | v :: w :: vs => newLine level ++ prettyChars level v ++ ',' :: prettyItems level (w :: vs)

def prettyMembers (level : Nat) : List (String × Value) → List Char
  | [] => []
  | [(n, v)] => newLine level ++ quoted n.toList ++ ':' :: ' ' :: prettyChars level v
  | (n, v) :: m :: ms =>
    newLine level ++ quoted n.toList ++ ':' :: ' ' :: prettyChars level v ++
      ',' :: prettyMembers level (m :: ms)

end

def compact (v : Value) : String := String.ofList v.compactChars

def pretty (v : Value) : String := String.ofList (v.prettyChars 0)

end Value

end EngineMigrate.Json
