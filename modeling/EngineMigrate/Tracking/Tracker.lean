import EngineMigrate.Project.Config
import EngineMigrate.Server.Release
import EngineMigrate.Tracking.CatalogTracker
import EngineMigrate.Tracking.Tables

/-!
Where a server keeps the record of applied migrations: in tables or in its catalog, as its capability
says.  Both kinds answer the same questions.
-/
namespace EngineMigrate

inductive Tracker where
  | tables (t : Tables)
  | catalog (t : CatalogTracker)
deriving DecidableEq, Repr

namespace Tracker

abbrev Act (α : Type) := Action Tracker TrackingFault α

def ofCapability (config : Config) : Capability → Tracker
  | .legacy => .tables ⟨config.paths.query⟩
  | .datasources => .catalog
      ⟨config.paths.metadata, config.paths.v2Query, config.source, Ledger.empty, none⟩

def act {α : Type} (onTables : Tables → Attempt TrackingFault α) (onCatalog : CatalogTracker.Act α) :
    Act α := fun tracker =>
  match tracker with
  | .tables t => do
    let r ← ExceptT.run (onTables t)
    return (r, .tables t)
  | .catalog t => do
    let (r, t) ← onCatalog t
    return (r, .catalog t)

def prepare : Act Unit := act Tables.prepare CatalogTracker.prepare

def applied : Act (List Entry) := act Tables.applied CatalogTracker.applied

def route : Tracker → SqlRoute
  | .tables _ => .query
  | .catalog t => t.route

/-- The bulk with what records the changes at its end. -/
def stage (changes : List Change) (bulk : Bulk) : Act Bulk :=
  act (fun _ => pure (Tables.stage changes bulk)) (CatalogTracker.stage changes bulk)

/-- The requests that carry a staged bulk, in the order in which to send them. -/
def batches (bulk : Bulk) : Tracker → List Batch
  | .tables t => [⟨t.path, none, bulk⟩]
  | .catalog t => t.batches bulk

def committed : Tracker → Tracker
  | .tables t => .tables t
  | .catalog t => .catalog t.committed

def aborted : Tracker → Tracker
  | .tables t => .tables t
  | .catalog t => .catalog t.aborted

def getSetting (name : String) : Act String :=
  act (fun t => t.getSetting name) (CatalogTracker.getSetting name)

def updateSetting (name value : String) : Act Unit :=
  act (fun t => t.updateSetting name value) (CatalogTracker.updateSetting name value)

end Tracker

end EngineMigrate
