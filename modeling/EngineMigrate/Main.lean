import EngineMigrate.Command.Run
import EngineMigrate.Json.Reader
import EngineMigrate.Project.Endpoint
import Std.Time.DateTime.Timestamp

/-!
The program.  It reads the files of the project, carries out the command, and writes what has changed.
Requests go to standard output, with their full URLs and headers, and replies come from standard input, one
line each; what the command prints follows the last request.
-/
namespace EngineMigrate

open Json (Value)

namespace Relay

def methodName : Method → String
  | .get => "GET"
  | .post => "POST"

def requestLine (e : Endpoint) (url : Url) (r : Request) : String :=
  (Value.ofMembers ([("method", .string (methodName r.method)), ("url", .string url.text),
    ("headers", .array (e.headers.map fun h => .array [.string h.1, .string h.2]))] ++
    SqlArgs.member "body" id r.body)).compact

def response? (line : String) : Option Response := do
  let v ← Value.parse? line
  let status ← v.get? "status" >>= Value.nat?
  let body ← v.get? "body" >>= Value.string?
  return ⟨status, body.toUTF8⟩

/-- The reply that a line stands for; a line without a response is a broken connection. -/
def reply (line : String) : Reply :=
  match response? line with
  | some r => .ok r
  | none => .error .connection

end Relay

namespace Main

def location (path : String) : Location := (FilePath.parts path).filter (· ≠ "")

def path (l : Location) : String := "/" ++ "/".intercalate l

def withDirectories (l : Location) (t : FileTree) : FileTree :=
  (List.range l.length).foldl (fun t n => t.set (l.take (n + 1)) .directory) t

/-- Reads what is below a directory. -/
partial def load (l : Location) (t : FileTree) : IO FileTree := do
  let directory ← IO.FS.realPath (path l)
  (← directory.readDir).foldlM (fun t entry => do
    let inner := l ++ [entry.fileName]
    if ← entry.path.isDir then load inner (t.set inner .directory)
    else return t.set inner (.file (← IO.FS.readBinFile (path inner)))) t

/-- The files of a project; a project that is not there has none. -/
def files (project : String) : IO FileTree := do
  let current := location (← IO.FS.realPath ".").toString
  let empty : FileTree := withDirectories current { FileTree.empty with current := current }
  try
    let top := location (← IO.FS.realPath project).toString
    load top (withDirectories top empty)
  catch _ => return empty

def store (entry : Location × FileEntry) : IO Unit :=
  match entry.2 with
  | .directory => IO.FS.createDirAll (path entry.1)
  | .file content => IO.FS.writeBinFile (path entry.1) content

def relay (e : Endpoint) (r : Request) : IO Reply := do
  match e.target r.path with
  | .error f => return .error f
  | .ok url =>
    let output ← IO.getStdout
    output.putStrLn (Relay.requestLine e url r)
    output.flush
    return Relay.reply (← (← IO.getStdin).getLine)

def converse {α : Type} (e : Endpoint) : Exchange α → IO α
  | .done a => return a
  | .send r next => do converse e (next (← relay e r))

def environment : IO (List (String × String)) := do
  let names := CommandLine.globals.filterMap CommandLine.OptionSpec.variableName
  names.filterMapM fun name => do return (← IO.getEnv name).map (name, ·)

def moment : IO Nat := do
  return (← Std.Time.Timestamp.now).toMillisecondsSinceUnixEpoch.toInt.toNat

def perform (i : Invocation) : IO UInt32 := do
  let before ← files i.project
  match i.prepare before with
  | .error f =>
    IO.eprintln f.message
    return 1
  | .ok (c, e) =>
    let (result, after) ← converse e (i.perform c (← moment) before)
    (after.since before).forM store
    match result with
    | .ok lines =>
      IO.print (Report.text lines)
      return 0
    | .error f =>
      IO.eprintln f.message
      return 1

end Main

end EngineMigrate

def main (words : List String) : IO UInt32 := do
  match EngineMigrate.CommandLine.parse words (← EngineMigrate.Main.environment) with
  | .ok i => EngineMigrate.Main.perform i
  | .error f =>
    IO.eprintln f.message
    return if f.isAnswer then 0 else 2
