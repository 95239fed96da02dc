import EngineMigrate.Local.Creation
import EngineMigrate.Project.Config
import EngineMigrate.Server.FaultPath
import EngineMigrate.Server.Release
import EngineMigrate.Text.Cut

/-!
Seeds: SQL fixtures that are sent on demand as one bulk and never recorded.  Everything is read before
anything is sent, and blank files are passed over.
-/
namespace EngineMigrate

structure SeedTarget where
  path : String
  route : SqlRoute
deriving DecidableEq, Repr

def SeedTarget.ofCapability (config : Config) : Capability → SeedTarget
  | .legacy => ⟨config.paths.query, .query⟩
  | .datasources => ⟨config.paths.v2Query, .source config.source⟩

inductive SeedFault where
  | files (fault : FileFault)
  | notFound (path : String)
  | invalidName (name : String)
  | send (fault : SendFault)
  | api (fault : ApiFault)
  /-- The server refused a seed. -/
  | failed (blame : Blame)
deriving DecidableEq, Repr

def SeedFault.message : SeedFault → String
  | .files _ => "IO error: the file could not be read or written"
  | .notFound path => "Seed file not found: " ++ path
  | .invalidName name => "Invalid seed name: " ++ name
  | .send fault => "Transport error: " ++ fault.message
  | .api fault => "API error: " ++ fault.message
  | .failed blame =>
    "Seed " ++ blame.file.getD "" ++ " failed: [" ++ blame.fault.code ++ "] " ++ blame.fault.error

namespace Seeds

def isSqlName (name : String) : Bool := ".sql".toList.isSuffixOf name.toList && name ≠ ".sql"

/-- The SQL files of a directory in byte order of their names; none if there is no directory. -/
def list (t : FileTree) (directory : String) : Except FileFault (List String) := do
  if !(← t.exists? directory) then return []
  let top ← t.locate directory
  match t.find? top with
  | some .directory =>
    return (t.children top).filter fun name =>
      isSqlName name && match t.find? (top ++ [name]) with
        | some (.file _) => true
        | _ => false
  | _ => throw .obstructed

/-- The files to send: the one that is named, which must be in the directory itself, or all. -/
def select (t : FileTree) (directory : String) : Option String → Except SeedFault (List String)
  | none => (list t directory).mapError .files
  | some name =>
    if !FilePath.isPlainName name then .error (.invalidName name)
    else
      let path := FilePath.join directory name
      match t.exists? path with
      | .error f => .error (.files f)
      | .ok false => .error (.notFound path)
      | .ok true => .ok [name]

def stage (t : FileTree) (directory : String) (route : SqlRoute) (files : List String) :
    Except FileFault Bulk :=
  files.foldlM (fun bulk name => do
    let sql ← t.readText (FilePath.join directory name)
    if Text.allBlank sql then return bulk
    return bulk.append (route.operation (.ofSql sql)) (some name)) .empty

/-- Sends the seeds of a directory, or one of them; gives the names of the files if any was sent. -/
def apply (target : SeedTarget) (t : FileTree) (directory : String) (file : Option String) :
    Attempt SeedFault (List String) := do
  let files ← Attempt.ofExcept id (select t directory file)
  let bulk ← Attempt.ofExcept .files (stage t directory target.route files)
  if bulk.isEmpty then return []
  let request := bulk.request target.route.bulkSource
  let response ← (Attempt.post target.path request).within .send
  match response.checked with
  | .ok _ => return files
  | .error f => match bulk.blame? request f with
    | some blame => throw (.failed blame)
    | none => throw (.api f)

/-- Writes a seed file named for a moment; gives its path. -/
def create (name content : String) (moment : Nat) (directory : String) (t : FileTree) :
    Except SeedFault String × FileTree :=
  if !isWritableName name then (.error (.invalidName name), t)
  else match t.ensureDirectory directory with
    | (.error f, t) => (.error (.files f), t)
    | (.ok (), t) =>
      let path := FilePath.join directory (toString moment ++ "_" ++ name ++ ".sql")
      match t.writeText path content with
      | .error f => (.error (.files f), t)
      | .ok t => (.ok path, t)

end Seeds

end EngineMigrate
