import EngineMigrate.Local.FileTree
import EngineMigrate.Text.Unsigned

/-!
Migration files by their names.  A file is `<version>_<name>.<up|down>.<sql|yaml|yml>`, or it is
`<up|down>.<sql|yaml|yml>` in a directory `<version>_<name>`.
-/
namespace EngineMigrate

inductive Direction where
  | up
  | down
deriving DecidableEq, Repr

def Direction.name : Direction → String
  | .up => "up"
  | .down => "down"

/-- What a migration file holds: one piece of SQL, or a list of metadata operations. -/
inductive Kind where
  | sql
  | metadata
deriving DecidableEq, Repr

namespace Kind

def name : Kind → String
  | .sql => "sql"
  | .metadata => "metadata"

def ofExtension? (s : String) : Option Kind :=
  if s = "sql" then some .sql
  else if s = "yaml" || s = "yml" then some .metadata
  else none

end Kind

namespace FileName

def extensions : List String := ["sql", "yaml", "yml"]

/-- The last parts of a file name, each with what it means. -/
def endings : List (List Char × Direction × Kind) :=
  [Direction.up, Direction.down].flatMap fun d => extensions.filterMap fun e =>
    (Kind.ofExtension? e).map fun k => (d.name.toList ++ '.' :: e.toList, d, k)

def dropEnding? (ending cs : List Char) : Option (List Char) :=
  if ending.isSuffixOf cs then some (cs.take (cs.length - ending.length)) else none

/-- `<version>_<name>`: digits up to the first underscore, then a name on one line. -/
def stem? (cs : List Char) : Option (Nat × String) :=
  match cs.dropWhile Char.isDigit with
  | '_' :: name =>
    if name.isEmpty || name.contains '\n' then none
    else (Text.digits? Text.wordLimit (cs.takeWhile Char.isDigit)).map (·, String.ofList name)
  | _ => none

/-- The parts of a name that stands for a whole migration file. -/
def flat? (cs : List Char) : Option (Nat × String × Direction × Kind) :=
  endings.findSome? fun (ending, d, k) => do
    let stem ← dropEnding? ('.' :: ending) cs
    let (version, name) ← stem? stem
    return (version, name, d, k)

/-- The parts of the name of a file in a migration's own directory. -/
def nested? (cs : List Char) : Option (Direction × Kind) :=
  endings.findSome? fun (ending, d, k) => if cs = ending then some (d, k) else none

end FileName

/-- A migration file; its location starts at the migrations directory. -/
structure MigrationFile where
  version : Nat
  name : String
  direction : Direction
  kind : Kind
  location : Location
deriving DecidableEq, Repr

namespace MigrationFile

/-- The file at a location of one or two names, if the names are those of a migration. -/
def ofLocation? (l : Location) : Option MigrationFile :=
  match l with
  | [file] => (FileName.flat? file.toList).map fun (v, n, d, k) => ⟨v, n, d, k, l⟩
  | [directory, file] => do
    let (v, n) ← FileName.stem? directory.toList
    let (d, k) ← FileName.nested? file.toList
    return ⟨v, n, d, k, l⟩
  | _ => none

/-- The name by which errors refer to the file: a file named for its direction alone needs its
directory in front. -/
def fileName (f : MigrationFile) : String :=
  match f.location.reverse with
  | file :: directory :: _ =>
    if file.startsWith "up." || file.startsWith "down." then directory ++ "/" ++ file else file
  | [file] => file
  | [] => ""

def path (root : String) (f : MigrationFile) : String := f.location.foldl FilePath.join root

end MigrationFile

inductive MigrationFault where
  | files (fault : FileFault)
  | directoryNotFound (path : String)
  | versionNotFound (version : Nat)
  | invalidName (name : String)
  | alreadyExists (path : String)
deriving DecidableEq, Repr

/-- The walk of the migrations directory has come to a directory whose names may not be listed. -/
@[match_pattern] def MigrationFault.unwalked : MigrationFault := .files .unlisted

def MigrationFault.message : MigrationFault → String
  | .unwalked => "Failed to read migrations directory: a directory could not be listed"
  | .files _ => "IO error: the file could not be read or written"
  | .directoryNotFound path => "Migrations directory not found: " ++ path
  | .versionNotFound version =>
    "Migration " ++ toString version ++ " not found in the migrations directory"
  | .invalidName name => "Invalid migration name: " ++ name
  | .alreadyExists path => "Migration " ++ path ++ " already exists"

end EngineMigrate
