import EngineMigrate.Local.OperationFile
import EngineMigrate.Local.Plan
import EngineMigrate.Server.FaultPath
import EngineMigrate.Server.Probe
import EngineMigrate.Text.Cut
import EngineMigrate.Tracking.Change

/-!
Everything that can go wrong while a database is migrated, and sessions: operations and changes gathered
until they are committed together.  A file is staged as a whole or not at all, and a file that cannot be
read empties the session.
-/
namespace EngineMigrate

inductive DriverFault where
  /-- Another session is open. -/
  | locked
  | unreadable (file : String) (cause : OperationFile.Fault)
  /-- The server refused an operation. -/
  | migration (blame : Blame)
  | send (fault : SendFault)
  | api (fault : ApiFault)
  | tracking (fault : TrackingFault)
  | version (fault : VersionFault)
  | files (fault : MigrationFault)
  | plan (fault : PlanFault)
deriving DecidableEq

namespace DriverFault

def message : DriverFault → String
  | .locked => "A bulk session is already open"
  | .unreadable file _ => "Failed to parse " ++ file
  | .migration blame =>
    "Migration failed" ++ ((blame.file.map (" in " ++ ·)).getD "") ++ ": [" ++ blame.fault.code ++
      "] " ++ blame.fault.error
  | .send fault => "Transport error: " ++ fault.message
  | .api fault => "API error: " ++ fault.message
  | .tracking fault => "State error: " ++ fault.message
  | .version fault => "Version error: " ++ fault.message
  | .files fault => "Migration error: " ++ fault.message
  | .plan fault => "Plan error: " ++ fault.message

/-- The fault of a commit whose bulk was answered with an error. -/
def ofCommit (fault : ApiFault) (request : Json.Value) (bulk : Bulk) : DriverFault :=
  match bulk.blame? request fault with
  | some blame => .migration blame
  | none => .api fault

end DriverFault

structure Session where
  bulk : Bulk
  changes : List Change
  route : SqlRoute
  /-- Tell the server with every piece of SQL not to check its metadata. -/
  skipConsistencyCheck : Bool
deriving DecidableEq, Repr

namespace Session

def start (route : SqlRoute) (skipConsistencyCheck : Bool) : Session :=
  ⟨.empty, [], route, skipConsistencyCheck⟩

def isEmpty (s : Session) : Bool := s.bulk.isEmpty && s.changes.isEmpty

/-- Without anything staged; the session stays open. -/
def reset (s : Session) : Session := { s with bulk := .empty, changes := [] }

def sqlArgs (s : Session) (sql : String) : SqlArgs :=
  { SqlArgs.ofSql sql with checkConsistency := if s.skipConsistencyCheck then some false else none }

/-- The operations that the content of a migration file stands for.  Blank SQL stands for none. -/
def operations (s : Session) (kind : Kind) (content : String) :
    Except OperationFile.Fault (List Operation) :=
  match kind with
  | .sql =>
    if Text.allBlank content then .ok [] else .ok [s.route.operation (s.sqlArgs content)]
  | .metadata => OperationFile.parse content

def appendAll (s : Session) (os : List Operation) (file : String) : Session :=
  { s with bulk := os.foldl (fun b o => b.append o (some file)) s.bulk }

def run (s : Session) (content : String) (kind : Kind) (file : String) :
    Except DriverFault Unit × Session :=
  match s.operations kind content with
  | .ok os => (.ok (), s.appendAll os file)
  | .error f => (.error (.unreadable file f), s.reset)

def change (s : Session) (c : Change) : Session := { s with changes := s.changes ++ [c] }

@[simp] theorem isEmpty_start (route : SqlRoute) (skip : Bool) :
    (start route skip).isEmpty = true := rfl

@[simp] theorem isEmpty_reset (s : Session) : s.reset.isEmpty = true := rfl

@[simp] theorem changes_appendAll (s : Session) (os : List Operation) (file : String) :
    (s.appendAll os file).changes = s.changes := rfl

theorem items_appendAll (s : Session) (os : List Operation) (file : String) :
    (s.appendAll os file).bulk.items = s.bulk.items ++ os.map (⟨·, some file⟩) := by
  have h : ∀ b : Bulk, (os.foldl (fun b o => b.append o (some file)) b).items =
      b.items ++ os.map (⟨·, some file⟩) := by
    induction os with
    | nil => simp
    | cons o os ih =>
      intro b
      simp [ih]
  exact h s.bulk

end Session

end EngineMigrate
