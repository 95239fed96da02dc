import EngineMigrate.Command.Invocation
import EngineMigrate.Driver.Apply
import EngineMigrate.Json.Printer
import EngineMigrate.Project.ConfigFile
import EngineMigrate.Project.Endpoint
import EngineMigrate.Project.Metadata
import EngineMigrate.Project.Seeds
import EngineMigrate.Server.Response

/-!
Carrying out what a command line asks for, and the lines that it prints, some of them in columns.  The
configuration and the endpoint are settled before anything else; a command that fails prints nothing.
-/
namespace EngineMigrate

namespace Report

def cell (width : Nat) (text : String) : String :=
  text ++ String.ofList (List.replicate (width - text.length) ' ')

def versionWidth : Nat := 16

def nameWidth : Nat := 40

def statusWidth : Nat := 16

/-- The name of a version, or a dash where none is known. -/
def nameText (name : Option String) : String := name.getD "-"

def appliedLine (version name direction : String) : String :=
  cell versionWidth version ++ " " ++ cell nameWidth name ++ " " ++ direction

def plannedLines (r : ApplyResult) : List String :=
  if r.migrations.isEmpty then ["Nothing to apply"]
  else appliedLine "VERSION" "NAME" "DIRECTION" :: r.migrations.map fun m =>
    appliedLine (toString m.version) (nameText m.name) m.direction.name

def statusLine (version name source database : String) : String :=
  cell versionWidth version ++ " " ++ cell nameWidth name ++ " " ++ cell statusWidth source ++
    " " ++ database

def presence (present : Bool) : String := if present then "Present" else "Not Present"

def statusLines (rows : List StatusRow) : List String :=
  statusLine "VERSION" "NAME" "SOURCE STATUS" "DATABASE STATUS" :: rows.map fun r =>
    statusLine (toString r.version) (nameText r.name) (presence r.sourcePresent)
      (presence r.databasePresent)

def consistencyLine (c : Consistency) : String :=
  if c.isConsistent then "Metadata is consistent" else (Json.Value.array c.objects).pretty

def text (lines : List String) : String := String.join (lines.map (· ++ "\n"))

end Report

inductive CommandFault where
  | config (fault : ConfigFault)
  | send (fault : SendFault)
  | migration (fault : MigrationFault)
  | driver (fault : DriverFault)
  | version (fault : VersionFault)
  | seed (fault : SeedFault)
  | metadata (fault : MetadataFault)
  /-- A count that is neither a number nor `all`. -/
  | count (text : String)
  | direction (text : String)
deriving DecidableEq

def CommandFault.message : CommandFault → String
  | .config fault => fault.message
  | .send fault => fault.message
  | .migration fault => fault.message
  | .driver fault => fault.message
  | .version fault => fault.message
  | .seed fault => fault.message
  | .metadata fault => fault.message
  | .count text => "expected a number or 'all', got " ++ text
  | .direction text => "--type must be up or down, got " ++ text

namespace TargetRequest

/-- `all`, in any case of its letters, is no limit. -/
def limit (count : String) : Except CommandFault (Option Nat) :=
  if count.toList.map Char.toLower = ['a', 'l', 'l'] then .ok none
  else match Text.unsigned? Text.wordLimit count.toList with
    | some n => .ok (some n)
    | none => .error (.count count)

def direction : Option String → Except CommandFault Direction
  | none => .ok .up
  | some "up" => .ok .up
  | some "down" => .ok .down
  | some other => .error (.direction other)

/-- The target that is meant; without any everything pending is applied. -/
def resolve : TargetRequest → Except CommandFault Target
  | .up count => (limit count).map .up
  | .down count => (limit count).map .down
  | .goto version => .ok (.goto version)
  | .only version d => (direction d).map (.only version)
  | .unsaid => .ok (.up none)

end TargetRequest

namespace Invocation

def configured (i : Invocation) (c : Config) : Config :=
  { c with
    endpoint := i.endpoint.getD c.endpoint
    adminSecret := i.adminSecret.or c.adminSecret
    timeout := i.timeout.or c.timeout }

def config (i : Invocation) (t : FileTree) : Except CommandFault Config := do
  let c ← (ConfigFile.read t i.project).mapError .config
  let c := i.configured (c.getD .default)
  c.validate.mapError .config
  return c

/-- The configuration, and the endpoint that it describes. -/
def prepare (i : Invocation) (t : FileTree) : Except CommandFault (Config × Endpoint) := do
  let c ← i.config t
  return (c, ← (Endpoint.ofConfig c).mapError .send)

/-- A command as it runs: over the files, with its output as lines. -/
abbrev Act := Action FileTree CommandFault (List String)

/-- A change of the files, which may have been done in part when it fails. -/
def ofFiles {α ε : Type} (f : ε → CommandFault) (change : FileTree → Except ε α × FileTree) :
    Action FileTree CommandFault α := fun t =>
  let (r, t) := change t
  return (r.mapError f, t)

def withDriver {α : Type} (i : Invocation) (c : Config) (x : Driver.Act α) :
    Action FileTree CommandFault α :=
  Action.ofAttempt .driver do
    let driver ← Driver.connect c i.capability
    ExceptT.mk do return (← x driver).1

def source (i : Invocation) (c : Config) : Action FileTree CommandFault Source := do
  Action.ofExcept .migration (Source.scan (← get) (c.migrationsPath i.project))

def applyMigrations (i : Invocation) (c : Config) (request : TargetRequest)
    (options : ApplyOptions) : Act := do
  let target ← Action.ofExcept id request.resolve
  let source ← i.source c
  let result ← i.withDriver c (Driver.apply (← get) source target options)
  return if result.dryRun then Report.plannedLines result else []

def showStatus (i : Invocation) (c : Config) : Act := do
  let source ← i.source c
  let applied ← i.withDriver c (Driver.applied <$> get)
  return Report.statusLines (source.status applied)

def applySeeds (i : Invocation) (c : Config) (file : Option String) : Act := do
  let capability ← Action.ofAttempt .version (Capability.detect c.paths.version i.capability)
  let _ ← Action.ofAttempt .seed
    (Seeds.apply (.ofCapability c capability) (← get) (c.seedsPath i.project) file)
  return []

/-- Carries out a command; `moment` names what is created. -/
def perform (i : Invocation) (c : Config) (moment : Nat) : Act :=
  let metadata : Metadata := ⟨c.paths.metadata⟩
  match i.command with
  | .applyMigrations request options => i.applyMigrations c request options
  | .showStatus => i.showStatus c
  | .createMigration draft => do
    let created ← ofFiles .migration (draft.create moment (c.migrationsPath i.project))
    return [toString created.version]
  | .getSetting name => do return [← i.withDriver c (Driver.getSetting name)]
  | .updateSetting name value => do
    i.withDriver c (Driver.updateSetting name value)
    return []
  | .applySeeds file => i.applySeeds c file
  | .createSeed name content => do
    return [← ofFiles .seed (Seeds.create name content moment (c.seedsPath i.project))]
  | .exportMetadata => fun t => do
    let (r, t) ← metadata.exportTo (c.metadataPath i.project) t
    return ((r.mapError .metadata).map fun path => [path], t)
  | .applyMetadata => do
    Action.ofAttempt .metadata (metadata.applyFrom (c.metadataPath i.project) (← get))
    return []
  | .reloadMetadata => do
    Action.ofAttempt .metadata metadata.reload
    return []
  | .listInconsistencies => do
    return [Report.consistencyLine (← Action.ofAttempt .metadata metadata.consistency)]

/-- Settles the configuration and the endpoint, then carries out the command. -/
def run (i : Invocation) (moment : Nat) : Act := do
  let (c, _) ← Action.ofExcept id (i.prepare (← get))
  i.perform c moment

end Invocation

end EngineMigrate
