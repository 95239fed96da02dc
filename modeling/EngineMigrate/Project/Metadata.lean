import EngineMigrate.Json.Reader
import EngineMigrate.Local.FileTree
import EngineMigrate.Server.Operation
import EngineMigrate.Server.Response

/-!
The server's metadata: exported to a file, applied from it, reloaded, and checked for consistency.
-/
namespace EngineMigrate

open Json (Value)

inductive MetadataFault where
  | files (fault : FileFault)
  /-- Text that is not JSON, or JSON that is not the report it should be. -/
  | layout
  | send (fault : SendFault)
  | api (fault : ApiFault)
  | notFound (path : String)
deriving DecidableEq, Repr

def MetadataFault.message : MetadataFault → String
  | .files _ => "IO error: the file could not be read or written"
  | .layout => "JSON error: the text does not have the expected layout"
  | .send fault => "Transport error: " ++ fault.message
  | .api fault => "API error: " ++ fault.message
  | .notFound path => "Metadata file not found: " ++ path

structure Metadata where
  path : String
deriving DecidableEq, Repr

namespace Metadata

def fileName : String := "metadata.json"

def call (m : Metadata) (o : Operation) : Attempt MetadataFault Value := do
  let response ← (Attempt.post m.path o.toJson).within .send
  Attempt.ofExcept .api response.json

def fetch (m : Metadata) : Attempt MetadataFault Value :=
  m.call (.plain "export_metadata" (.object []))

def apply (m : Metadata) (metadata : Value) : Attempt MetadataFault Unit := do
  let _ ← m.call (.plain "replace_metadata" metadata)

def reload (m : Metadata) : Attempt MetadataFault Unit := do
  let _ ← m.call (.plain "reload_metadata" (.object []))

def consistency (m : Metadata) : Attempt MetadataFault Consistency := do
  let report ← m.call (.plain "get_inconsistent_metadata" (.object []))
  match Consistency.ofJson? report with
  | some c => return c
  | none => throw .layout

/-- Writes metadata into its file in a directory, which is created if it is missing; gives the path. -/
def save (metadata : Value) (directory : String) (t : FileTree) :
    Except MetadataFault String × FileTree :=
  match t.ensureDirectory directory with
  | (.error f, t) => (.error (.files f), t)
  | (.ok (), t) =>
    let path := FilePath.join directory fileName
    match t.writeText path metadata.pretty with
    | .error f => (.error (.files f), t)
    | .ok t => (.ok path, t)

def load (directory : String) (t : FileTree) : Except MetadataFault Value :=
  let path := FilePath.join directory fileName
  match t.exists? path with
  | .error f => .error (.files f)
  | .ok false => .error (.notFound path)
  | .ok true => match t.readText path with
    | .error f => .error (.files f)
    | .ok text => match Value.parse? text with
      | some v => .ok v
      | none => .error .layout

def exportTo (m : Metadata) (directory : String) : Action FileTree MetadataFault String := do
  let metadata ← Action.ofAttempt id m.fetch
  fun t => return save metadata directory t

def applyFrom (m : Metadata) (directory : String) (t : FileTree) : Attempt MetadataFault Unit := do
  m.apply (← Attempt.ofExcept id (load directory t))

end Metadata

end EngineMigrate
