import EngineMigrate.Local.FileTree
import EngineMigrate.Server.Operation

/-!
The configuration of a project: where the server is, how to reach it, and where the project keeps its
files.
-/
namespace EngineMigrate

/-- Paths of the server's API, relative to the endpoint. -/
structure ApiPaths where
  query : String
  metadata : String
  v2Query : String
  version : String
deriving DecidableEq, Repr

def ApiPaths.default : ApiPaths := ⟨"v1/query", "v1/metadata", "v2/query", "v1/version"⟩

structure Config where
  /-- The number of the configuration's layout. -/
  version : Nat
  endpoint : String
  adminSecret : Option String
  /-- The older name of the admin secret. -/
  accessKey : Option String
  paths : ApiPaths
  /-- Extra headers, each name once. -/
  headers : List (String × String)
  migrationsDirectory : String
  seedsDirectory : String
  metadataDirectory : String
  database : Database
  /-- The source that migrations run against; the empty name is the server's default. -/
  source : String
  /-- Tell the server not to check its metadata after the SQL of a migration. -/
  skipConsistencyCheck : Bool
  /-- How long to wait for a response, in seconds. -/
  timeout : Option Nat
deriving DecidableEq, Repr

namespace Config

def default : Config where
  version := 3
  endpoint := "http://localhost:8080"
  adminSecret := none
  accessKey := none
  paths := .default
  headers := []
  migrationsDirectory := "migrations"
  seedsDirectory := "seeds"
  metadataDirectory := "metadata"
  database := .postgres
  source := ""
  skipConsistencyCheck := false
  timeout := none

def migrationsPath (c : Config) (project : String) : String :=
  FilePath.join project c.migrationsDirectory

def seedsPath (c : Config) (project : String) : String := FilePath.join project c.seedsDirectory

def metadataPath (c : Config) (project : String) : String :=
  FilePath.join project c.metadataDirectory

end Config

end EngineMigrate
