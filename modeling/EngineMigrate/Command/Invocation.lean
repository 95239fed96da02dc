import EngineMigrate.Command.Grammar
import EngineMigrate.Driver.Apply
import EngineMigrate.Local.Creation

/-!
What a command line can ask for, the grammar that says so, and how a line is understood.  Options of
the project stand on any level; at most one option says where to take the database.
-/
namespace EngineMigrate

/-- A target in the words of the command line; counts and directions are still texts. -/
inductive TargetRequest where
  | up (count : String)
  | down (count : String)
  | goto (version : Nat)
  | only (version : Nat) (direction : Option String)
  /-- No option says it. -/
  | unsaid
deriving DecidableEq, Repr

inductive Command where
  | applyMigrations (target : TargetRequest) (options : ApplyOptions)
  | showStatus
  | createMigration (draft : Draft)
  | getSetting (name : String)
  | updateSetting (name value : String)
  | applySeeds (file : Option String)
  | createSeed (name content : String)
  | exportMetadata
  | applyMetadata
  | reloadMetadata
  | listInconsistencies
deriving DecidableEq, Repr

/-- A command, the project it is for, and what replaces parts of the project's configuration. -/
structure Invocation where
  project : String
  endpoint : Option String
  adminSecret : Option String
  capability : Option Capability
  timeout : Option Nat
  command : Command
deriving DecidableEq, Repr

namespace CommandLine

def globals : List OptionSpec :=
  [.taking "project" .path,
    { OptionSpec.taking "endpoint" .text with variableName := some "HASURA_GRAPHQL_ENDPOINT" },
    { OptionSpec.taking "admin-secret" .text with
      variableName := some "HASURA_GRAPHQL_ADMIN_SECRET" },
    { OptionSpec.taking "server-capability" .capability with
      variableName := some "HASURA_SERVER_CAPABILITY" },
    .taking "timeout-secs" .number,
    .taking "log-level" .text]

/-- An option for a target, given with none of the others. -/
def targetOption (name : String) (kind : ValueKind) : OptionSpec :=
  { OptionSpec.taking name kind with
    excludes := ["up", "down", "goto", "version"].filter (· ≠ name) }

def migrateCommands : CommandSpec :=
  .mk "migrate" [] [] [
    .mk "apply" [targetOption "up" .text, targetOption "down" .text, targetOption "goto" .number,
      targetOption "version" .number, .taking "type" .text, .flag "skip-execution",
      .flag "dry-run"] [] [],
    .mk "status" [] [] [],
    .mk "create" [.taking "up-sql" .text, .taking "down-sql" .text] ["name"] [],
    .mk "get-setting" [] ["name"] [],
    .mk "set-setting" [] ["name", "value"] []]

def seedCommands : CommandSpec :=
  .mk "seed" [] [] [
    .mk "apply" [.taking "file" .text] [] [],
    .mk "create" [.taking "content" .text] ["name"] []]

def metadataCommands : CommandSpec :=
  .mk "metadata" [] [] [.mk "export" [] [] [], .mk "apply" [] [] [], .mk "reload" [] [] [],
    .mk "inconsistency" [] [] []]

def grammar : CommandSpec :=
  .mk "engine-migrate" [] [] [migrateCommands, seedCommands, metadataCommands]

namespace Level

def text? (l : Level) (name : String) : Option String := (l.find? name).map Given.value

def nat? (l : Level) (name : String) : Option Nat :=
  l.text? name >>= fun s => Text.unsigned? Text.wordLimit s.toList

def has (l : Level) (name : String) : Bool := (l.find? name).isSome

def target (l : Level) : TargetRequest :=
  match l.text? "up", l.text? "down", l.nat? "goto", l.nat? "version" with
  | some count, _, _, _ => .up count
  | none, some count, _, _ => .down count
  | none, none, some version, _ => .goto version
  | none, none, none, some version => .only version (l.text? "type")
  | none, none, none, none => .unsaid

end Level

def migrateCommand? (l : Level) : Option Command :=
  match l.command with
  | "apply" => some (.applyMigrations l.target ⟨l.has "dry-run", l.has "skip-execution"⟩)
  | "status" => some .showStatus
  | "create" => do
    return .createMigration ⟨← l.text? "name", (l.text? "up-sql").getD "", l.text? "down-sql"⟩
  | "get-setting" => do return .getSetting (← l.text? "name")
  | "set-setting" => do return .updateSetting (← l.text? "name") (← l.text? "value")
  | _ => none

def seedCommand? (l : Level) : Option Command :=
  match l.command with
  | "apply" => some (.applySeeds (l.text? "file"))
  | "create" => do return .createSeed (← l.text? "name") ((l.text? "content").getD "")
  | _ => none

def metadataCommand? (l : Level) : Option Command :=
  match l.command with
  | "export" => some .exportMetadata
  | "apply" => some .applyMetadata
  | "reload" => some .reloadMetadata
  | "inconsistency" => some .listInconsistencies
  | _ => none

def command? : List Level → Option Command
  | [_, group, l] =>
    match group.command with
    | "migrate" => migrateCommand? l
    | "seed" => seedCommand? l
    | "metadata" => metadataCommand? l
    | _ => none
  | _ => none

def parse (words : List String) (environment : List (String × String)) :
    Except UsageFault Invocation := do
  let levels ← readLevel ⟨globals, environment⟩ grammar true .start words
  match command? levels with
  | none => throw .missingSubcommand
  | some command => return {
      project := (globalValue "project" levels).getD "."
      endpoint := globalValue "endpoint" levels
      adminSecret := globalValue "admin-secret" levels
      capability := globalValue "server-capability" levels >>= Capability.parse?
      timeout := globalValue "timeout-secs" levels >>= fun s =>
        Text.unsigned? Text.wordLimit s.toList
      command := command }

end CommandLine

end EngineMigrate
