import EngineMigrate.Local.FileTree
import EngineMigrate.Project.Config
import EngineMigrate.Url.Parser
import EngineMigrate.Yaml.Printer
import EngineMigrate.Yaml.Value

/-!
The configuration file.  A missing file is no fault, and missing fields have their defaults; unknown
fields are passed over, but a known one must not stand twice.
-/
namespace EngineMigrate

inductive ConfigFault where
  | files (fault : FileFault)
  /-- Text that is not YAML or not a configuration. -/
  | malformed
  | invalidEndpoint (endpoint : String) (cause : UrlFault)
  | unsupportedVersion (version : Nat)
deriving DecidableEq, Repr

def ConfigFault.message : ConfigFault → String
  | .files _ => "IO error: the file could not be read or written"
  | .malformed => "YAML error: the text is no configuration"
  | .invalidEndpoint endpoint cause => "Invalid endpoint " ++ endpoint ++ ": " ++ cause.message
  | .unsupportedVersion version =>
    "Unsupported config version " ++ toString version ++ ", expected 1, 2 or 3"

/-- Checks the layout's number, then that the endpoint is a URL. -/
def Config.validate (c : Config) : Except ConfigFault Unit :=
  if c.version < 1 || 3 < c.version then .error (.unsupportedVersion c.version)
  else match Url.parse c.endpoint with
    | .ok _ => .ok ()
    | .error f => .error (.invalidEndpoint c.endpoint f)

namespace ConfigFile

open Yaml (Node Document Style)

def follow (d : Document) : Node → Option Node
  | .alias a => d.find? a
  | n => some n

def text? (d : Document) (n : Node) : Option String :=
  match follow d n with
  | some (.scalar _ _ _ text) => some text
  | _ => none

/-- The entries of a mapping by the texts of their keys; a value that is not written has none. -/
def entries? (d : Document) (n : Node) : Option (List (String × Node)) :=
  match follow d n with
  | some (.mapping _ _ entries) => entries.mapM fun e => (text? d e.1).map (·, e.2)
  | some (.scalar _ _ .plain "") => some []
  | _ => none

/-- Whether the meaning of a scalar may be asked for: a plain one, or a literal with the tag. -/
def isMeant (tag : String) (style : Style) (given : Option String) : Bool :=
  style == .plain || (style == .literal && given == some tag)

def nat? (d : Document) (n : Node) : Option Nat :=
  match follow d n with
  | some (.scalar _ tag style text) =>
    if isMeant Yaml.integerTag style tag then Yaml.Scalar.word? text else none
  | _ => none

def bool? (d : Document) (n : Node) : Option Bool :=
  match follow d n with
  | some (.scalar _ tag style text) =>
    if isMeant Yaml.boolTag style tag then Yaml.Scalar.bool? text else none
  | _ => none

/-- A value or null: a plain scalar that is empty or says so. -/
def optional? {α : Type} (read : Document → Node → Option α) (d : Document) (n : Node) :
    Option (Option α) :=
  match follow d n with
  | some (.scalar _ tag .plain text) =>
    if tag = some Yaml.nullTag then if Yaml.Scalar.isNull text then some none else none
    else if tag.isNone && (text.isEmpty || Yaml.Scalar.isNull text) then some none
    else (read d n).map some
  | _ => (read d n).map some

/-- A kind of database: its name, or its name as the tag of nothing. -/
def database? (d : Document) (n : Node) : Option Database :=
  match follow d n with
  | some (.scalar _ tag style text) =>
    match Yaml.localTag? tag with
    | some name =>
      if style = .plain && (text.isEmpty || Yaml.Scalar.isNull text) then Database.parse? name else none
    | none => Database.parse? text
  | _ => none

def headers? (d : Document) (n : Node) : Option (List (String × String)) := do
  let entries ← entries? d n
  entries.foldlM (fun headers e => do
    let value ← text? d e.2
    return headers.filter (fun h => h.1 != e.1) ++ [(e.1, value)]) []

def field {α : Type} (entries : List (String × Node)) (name : String) (default : α)
    (read : Node → Option α) : Option α :=
  match entries.filter fun e => e.1 == name with
  | [] => some default
  | [e] => read e.2
  | _ => none

def paths? (d : Document) (n : Node) : Option ApiPaths := do
  let entries ← entries? d n
  let query ← field entries "query" ApiPaths.default.query (text? d)
  let metadata ← field entries "metadata" ApiPaths.default.metadata (text? d)
  let v2Query ← field entries "v2_query" ApiPaths.default.v2Query (text? d)
  let version ← field entries "version" ApiPaths.default.version (text? d)
  return ⟨query, metadata, v2Query, version⟩

def versionLimit : Nat := Nat.pow 2 32

def ofEntries? (d : Document) (entries : List (String × Node)) : Option Config := do
  let c := Config.default
  let version ← field entries "version" c.version fun n => (nat? d n).filter (· < versionLimit)
  let endpoint ← field entries "endpoint" c.endpoint (text? d)
  let adminSecret ← field entries "admin_secret" none (optional? text? d)
  let accessKey ← field entries "access_key" none (optional? text? d)
  let paths ← field entries "api_paths" c.paths (paths? d)
  let headers ← field entries "headers" c.headers (headers? d)
  let migrations ← field entries "migrations_directory" c.migrationsDirectory (text? d)
  let seeds ← field entries "seeds_directory" c.seedsDirectory (text? d)
  let metadata ← field entries "metadata_directory" c.metadataDirectory (text? d)
  let database ← field entries "database_driver" c.database (database? d)
  let source ← field entries "source" c.source (text? d)
  let skip ← field entries "disable_metadata_consistency_check" c.skipConsistencyCheck (bool? d)
  let timeout ← field entries "timeout_secs" none (optional? nat? d)
  return ⟨version, endpoint, adminSecret, accessKey, paths, headers, migrations, seeds, metadata,
    database, source, skip, timeout⟩

/-- The configuration that a text describes; an empty text describes the default one. -/
def parse? (text : String) : Option Config := do
  let d ← Document.parse? text
  match d.root with
  | none => some Config.default
  | some n => ofEntries? d (← entries? d n)

def optionalField {α : Type} (name : String) (f : α → Yaml.Field) :
    Option α → List (String × Yaml.Field)
  | some a => [(name, f a)]
  | none => []

def boolWord (b : Bool) : Yaml.Field := .word (if b then "true" else "false")

def natWord (n : Nat) : Yaml.Field := .word (toString n)

/-- The fields as they are written: absent options and empty headers are left out. -/
def fields (c : Config) : List (String × Yaml.Field) :=
  [("version", natWord c.version), ("endpoint", .text c.endpoint)] ++
    optionalField "admin_secret" .text c.adminSecret ++
    optionalField "access_key" .text c.accessKey ++
    [("api_paths", .record [("query", .text c.paths.query), ("metadata", .text c.paths.metadata),
      ("v2_query", .text c.paths.v2Query), ("version", .text c.paths.version)])] ++
    (if c.headers.isEmpty then []
      else [("headers", .record (c.headers.map fun h => (h.1, .text h.2)))]) ++
    [("migrations_directory", .text c.migrationsDirectory),
      ("seeds_directory", .text c.seedsDirectory),
      ("metadata_directory", .text c.metadataDirectory),
      ("database_driver", .text c.database.name),
      ("source", .text c.source),
      ("disable_metadata_consistency_check", boolWord c.skipConsistencyCheck)] ++
    optionalField "timeout_secs" natWord c.timeout

def print (c : Config) : String := Yaml.render (fields c)

def path (project : String) : String := FilePath.join project "config.yaml"

def read (t : FileTree) (project : String) : Except ConfigFault (Option Config) :=
  match t.entry (path project) with
  | .error _ => .ok none
  | .ok _ => match t.readText (path project) with
    | .error f => .error (.files f)
    | .ok text => match parse? text with
      | some c => .ok (some c)
      | none => .error .malformed

def write (t : FileTree) (project : String) (c : Config) : Except ConfigFault FileTree :=
  (t.writeText (path project) (print c)).mapError .files

end ConfigFile

end EngineMigrate
