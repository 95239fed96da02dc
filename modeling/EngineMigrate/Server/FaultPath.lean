import EngineMigrate.Json.Printer
import EngineMigrate.Server.Bulk
import EngineMigrate.Server.Response
import EngineMigrate.Text.Cut
import EngineMigrate.Text.Unsigned

/-!
The paths by which the server says where in a request an error lies, such as `$.args[3].args.sql`:
following them into a value, and tracing an error on a bulk back to the operation that caused it, its file,
and the part of the request that the error points at.
-/
namespace EngineMigrate

namespace FaultPath

open Json (Value)

/-- One step into a value. -/
inductive Segment where
  | key (name : String)
  | index (i : Nat)
deriving DecidableEq, Repr

/-- The text between a pair of the given quotes, at least two characters long with them. -/
def unquote? (q : Char) : List Char → Option (List Char)
  | [] => none
  | c :: cs => if c = q && cs.getLast? = some q then some cs.dropLast else none

/-- What a pair of brackets holds: a quoted key, or an index with blanks around it. -/
def bracketed? (inner : List Char) : Option Segment :=
  match unquote? '\'' inner <|> unquote? '"' inner with
  | some name => some (.key (String.ofList name))
  | none => (Text.unsigned? Text.wordLimit (Text.trim inner)).map .index

def endsKey (c : Char) : Bool := c == '.' || c == '['

/-- The segments of a path after its root.  A bracket that is never closed ends with the text. -/
def segments? : List Char → Option (List Segment)
  | [] => some []
  | '.' :: rest =>
    let name := rest.takeWhile (!endsKey ·)
    if name.isEmpty then none
    else (segments? (rest.dropWhile (!endsKey ·))).map (.key (String.ofList name) :: ·)
  | '[' :: rest => do
    let segment ← bracketed? (rest.takeWhile (· != ']'))
    let more ← segments? ((rest.dropWhile (· != ']')).drop 1)
    return segment :: more
  | _ => none
termination_by cs => cs.length
decreasing_by
  · exact Nat.lt_succ_of_le (List.dropWhile_suffix _).length_le
  · rw [List.length_drop]
    have := (List.dropWhile_suffix (l := rest) (· != ']')).length_le
    simp only [List.length_cons]
    omega

/-- The segments of a path that starts at the root `$`. -/
def parse? (path : String) : Option (List Segment) :=
  match path.toList with
  | '$' :: rest => segments? rest
  | _ => none

def step (v : Value) : Segment → Option Value
  | .key name => v.get? name
  | .index i => v.at? i

/-- What a path leads to; nothing if it is malformed or points outside the value. -/
def lookup (v : Value) (path : String) : Option Value := parse? path >>= List.foldlM step v

def dropText : List Char → List Char → Option (List Char)
  | [], cs => some cs
  | a :: as, c :: cs => if a = c then dropText as cs else none
  | _ :: _, [] => none

/-- The position in a bulk of the operation that a path points into. -/
def bulkIndex? (path : String) : Option Nat := do
  let rest ← dropText ['$', '.', 'a', 'r', 'g', 's', '['] path.toList
  match rest.dropWhile Char.isDigit with
  | ']' :: _ => Text.digits? Text.wordLimit (rest.takeWhile Char.isDigit)
  | _ => none

end FaultPath

structure Blame where
  file : Option String
  index : Option Nat
  /-- The part of the request that the error's path leads to, laid out over lines. -/
  query : Option String
  fault : ServerFault
deriving DecidableEq, Repr

/-- Who is to blame for a fault of `request`, which was built from the bulk; nobody if the response
held no error of the server. -/
def Bulk.blame? (b : Bulk) (request : Json.Value) (fault : ApiFault) : Option Blame :=
  fault.serverFault?.map fun f =>
    let index := FaultPath.bulkIndex? f.path
    { file := index >>= b.file?
      index := index
      query := (FaultPath.lookup request f.path).map Json.Value.pretty
      fault := f }

end EngineMigrate
