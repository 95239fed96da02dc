import EngineMigrate.Text.Unsigned
import EngineMigrate.Tracking.Change

/-!
Records in the tracking tables of a server with one database.  Everything is SQL through the query
endpoint, so that the records of a commit travel in the same bulk as what they record.  A literal writes
every quote twice, so that its text ends where the literal ends.
-/
namespace EngineMigrate

namespace SqlText

/-- A quote as it stands inside a literal; every other character stands for itself. -/
def inLiteral (c : Char) : List Char := if c = '\'' then ['\'', '\''] else [c]

def literal (s : String) : String := String.ofList ('\'' :: s.toList.flatMap inLiteral ++ ['\''])

/-- The schema that the server keeps its own tables in. -/
def schema : String := "hdb_catalog"

def migrationsTable : String := "schema_migrations"

def settingsTable : String := "migration_settings"

def qualified (table : String) : String := schema ++ "." ++ table

def migrationsColumns : String := "version bigint not null primary key, dirty boolean not null"

def settingsColumns : String := "setting text not null primary key, value text not null"

def countTable (table : String) : String :=
  "SELECT COUNT(1) FROM information_schema.tables WHERE table_name = " ++ literal table ++
    " AND table_schema = " ++ literal schema ++ " LIMIT 1"

def createTable (table columns : String) : String :=
  "CREATE TABLE IF NOT EXISTS " ++ qualified table ++ " (" ++ columns ++ ")"

def selectVersions : String := "SELECT version, dirty FROM " ++ qualified migrationsTable

def insertVersion (version : Nat) : String :=
  "INSERT INTO " ++ qualified migrationsTable ++ " (version, dirty) VALUES (" ++ toString version ++
    ", false)"

def deleteVersion (version : Nat) : String :=
  "DELETE FROM " ++ qualified migrationsTable ++ " WHERE version = " ++ toString version

def selectSetting (name : String) : String :=
  "SELECT value FROM " ++ qualified settingsTable ++ " WHERE setting = " ++ literal name

def storeSetting (name value : String) : String :=
  "INSERT INTO " ++ qualified settingsTable ++ " (setting, value) VALUES (" ++ literal name ++ ", " ++
    literal value ++ ") ON CONFLICT (setting) DO UPDATE SET value = EXCLUDED.value"

end SqlText

/-- The tracking tables, reached at a path. -/
structure Tables where
  path : String
deriving DecidableEq, Repr

namespace Tables

def operation (sql : String) : Operation := SqlRoute.query.operation (.ofSql sql)

def runSql (t : Tables) (sql : String) : Attempt TrackingFault SqlResult := do
  let response ← (Attempt.post t.path (operation sql).toJson).within .send
  Attempt.ofExcept .api (response.decode SqlResult.ofBytes?)

def expect (accepted : Bool) (r : SqlResult) : Attempt TrackingFault Unit :=
  if accepted then pure () else throw (.api (.resultType r.resultType))

def firstCell? (r : SqlResult) : Option String := (r.rows.head? >>= List.head?).join

/-- Creates a table if it is missing; tells whether it was. -/
def ensureTable (t : Tables) (table columns : String) : Attempt TrackingFault Bool := do
  let count ← t.runSql (SqlText.countTable table)
  expect count.isTuples count
  if (firstCell? count).any (· != "0") then return false
  let created ← t.runSql (SqlText.createTable table columns)
  expect created.isCommand created
  return true

/-- Makes sure that both tables are there; new settings get their defaults. -/
def prepare (t : Tables) : Attempt TrackingFault Unit := do
  let _ ← t.ensureTable SqlText.migrationsTable SqlText.migrationsColumns
  if ← t.ensureTable SqlText.settingsTable SqlText.settingsColumns then
    for (name, value) in Settings.known do
      let _ ← t.runSql (SqlText.storeSetting name value)

def entry? (row : List (Option String)) : Except TrackingFault Entry :=
  match row.head?.join >>= fun v => Text.unsigned? Text.wordLimit v.toList with
  | some version =>
    .ok ⟨version, none, row[1]?.join == some "t" || row[1]?.join == some "true"⟩
  | none => .error (.invalidRow SqlText.migrationsTable row)

def applied (t : Tables) : Attempt TrackingFault (List Entry) := do
  let result ← t.runSql SqlText.selectVersions
  expect result.isTuples result
  Attempt.ofExcept id (result.rows.mapM entry?)

def changeSql : Change → String
  | .record version _ => SqlText.insertVersion version
  | .erase version => SqlText.deleteVersion version

def stage (changes : List Change) (bulk : Bulk) : Bulk :=
  changes.foldl (fun b c => b.append (operation (changeSql c)) none) bulk

def getSetting (t : Tables) (name : String) : Attempt TrackingFault String := do
  let default ← Attempt.ofExcept id (Settings.defaultOf name)
  let result ← t.runSql (SqlText.selectSetting name)
  return (firstCell? result).getD default

def updateSetting (t : Tables) (name value : String) : Attempt TrackingFault Unit := do
  let _ ← Attempt.ofExcept id (Settings.defaultOf name)
  let _ ← t.runSql (SqlText.storeSetting name value)

end Tables

end EngineMigrate
