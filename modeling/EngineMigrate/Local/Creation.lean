import EngineMigrate.Local.Migration
import EngineMigrate.Text.Cut

/-!
New migration files.  The name must be one word without slashes; an existing up file is never replaced.
The tree that comes with a fault holds what was done before it.
-/
namespace EngineMigrate

/-- What a new migration is to hold; without SQL for the way down no file is written for it. -/
structure Draft where
  name : String
  upSql : String
  downSql : Option String
deriving DecidableEq, Repr

structure Created where
  version : Nat
  upPath : String
  downPath : Option String
deriving DecidableEq, Repr

/-- Names that can stand in a file name and be found again by a scan. -/
def isWritableName (name : String) : Bool :=
  !name.isEmpty && name.toList.all fun c => c != '/' && c != '\\' && !Text.isBlank c

namespace Draft

def path (directory : String) (version : Nat) (name : String) (direction : Direction) : String :=
  FilePath.join directory (toString version ++ "_" ++ name ++ "." ++ direction.name ++ ".sql")

/-- Writes the files of a migration into a directory, which is created if it is missing. -/
def create (d : Draft) (version : Nat) (directory : String) (t : FileTree) :
    Except MigrationFault Created × FileTree :=
  if !isWritableName d.name then (.error (.invalidName d.name), t)
  else match t.ensureDirectory directory with
    | (.error f, t) => (.error (.files f), t)
    | (.ok (), t) =>
      let up := path directory version d.name .up
      match t.exists? up with
      | .error f => (.error (.files f), t)
      | .ok true => (.error (.alreadyExists up), t)
      | .ok false => match t.writeText up d.upSql with
        | .error f => (.error (.files f), t)
        | .ok t => match d.downSql with
          | none => (.ok ⟨version, up, none⟩, t)
          | some sql =>
            let down := path directory version d.name .down
            match t.writeText down sql with
            | .error f => (.error (.files f), t)
            | .ok t => (.ok ⟨version, up, some down⟩, t)

end Draft

end EngineMigrate
