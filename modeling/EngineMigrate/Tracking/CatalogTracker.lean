import EngineMigrate.Server.Operation
import EngineMigrate.Tracking.Change
import EngineMigrate.Tracking.Ledger

/-!
Records in the ledger of a server with data sources, which is read and replaced through the metadata
endpoint.  A checked write first reads the ledger again and is refused if its revision is not the one the
new content was made from.  The ledger last read or written is kept; a commit stages its successor, which
takes its place only when the whole commit was accepted.
-/
namespace EngineMigrate

open Json (Value)

structure LedgerStore where
  path : String
deriving DecidableEq, Repr

namespace LedgerStore

def readOperation : Operation := .plain "get_catalog_state" (.object [])

def writeOperation (l : Ledger) : Operation :=
  .plain "set_catalog_state" (Value.ofMembers [("type", .string "cli"), ("state", l.toJson)])

def catalog (s : LedgerStore) : Attempt CatalogFault Catalog := do
  let response ← (Attempt.post s.path readOperation.toJson).within .send
  Attempt.ofExcept .api (response.decode Catalog.ofBytes?)

def read (s : LedgerStore) : Attempt CatalogFault StoredLedger := do
  Attempt.ofExcept id (← s.catalog).ledger

/-- Replaces the ledger without looking at what is there. -/
def write (s : LedgerStore) (l : Ledger) : Attempt CatalogFault Unit := do
  let response ← (Attempt.post s.path (writeOperation l).toJson).within .send
  let _ ← Attempt.ofExcept .api response.checked

def checkRevision (s : LedgerStore) (expected : Revision) : Attempt CatalogFault Unit := do
  let found := (← s.read).revision
  if found ≠ expected then throw (.concurrentModification expected found)

/-- Writes the content at the next revision if nobody else has written since; gives what was written. -/
def writeChecked (s : LedgerStore) (l : Ledger) : Attempt CatalogFault Ledger := do
  s.checkRevision l.revision
  s.write l.advance
  return l.advance

end LedgerStore

structure CatalogTracker where
  /-- The path of the metadata endpoint, which the ledger is behind too. -/
  metadataPath : String
  queryPath : String
  source : String
  ledger : Ledger
  /-- The ledger that an unfinished commit is writing. -/
  pending : Option Ledger
deriving DecidableEq, Repr

namespace CatalogTracker

abbrev Act (α : Type) := Action CatalogTracker TrackingFault α

def store (t : CatalogTracker) : LedgerStore := ⟨t.metadataPath⟩

def route (t : CatalogTracker) : SqlRoute := .source t.source

def ask {α : Type} (f : LedgerStore → Attempt CatalogFault α) : Act α := do
  Action.ofAttempt .catalog (f (← get).store)

def keep (l : Ledger) : Act Unit := modify fun t => { t with ledger := l }

/-- Reads the ledger; one that is missing or of the older layout is written anew. -/
def prepare : Act Unit := do
  let stored ← ask LedgerStore.read
  if stored.needsUpgrade then
    keep (← ask fun s => s.writeChecked stored.upgrade)
  else
    keep stored.upgrade

def refresh : Act Ledger := do
  let ledger := (← ask LedgerStore.read).upgrade
  keep ledger
  return ledger

def applied : Act (List Entry) := do return (← refresh).entries

def successor (t : CatalogTracker) (changes : List Change) : Ledger :=
  (Change.enterAll t.ledger changes).advance

/-- Appends the write of the ledger with the changes, unless somebody else has written meanwhile. -/
def stage (changes : List Change) (bulk : Bulk) : Act Bulk := do
  let t ← get
  ask fun s => s.checkRevision t.ledger.revision
  let next := t.successor changes
  set { t with pending := some next }
  return bulk.append (LedgerStore.writeOperation next) none

def committed (t : CatalogTracker) : CatalogTracker :=
  { t with ledger := t.pending.getD t.ledger, pending := none }

def aborted (t : CatalogTracker) : CatalogTracker := { t with pending := none }

/-- The runs of SQL and of everything else, each for its own endpoint. -/
def batches (t : CatalogTracker) (bulk : Bulk) : List Batch :=
  (bulk.splitBy Operation.isSql).map fun (sql, run) =>
    if sql then ⟨t.queryPath, t.route.bulkSource, run⟩ else ⟨t.metadataPath, none, run⟩

def getSetting (name : String) : Act String := do
  let _ ← Action.ofExcept id (Settings.defaultOf name)
  return (← refresh).settings.migrationMode

def updateSetting (name value : String) : Act Unit := do
  let _ ← Action.ofExcept id (Settings.defaultOf name)
  let ledger ← refresh
  keep (← ask fun s => s.writeChecked { ledger with settings := ⟨value⟩ })

end CatalogTracker

end EngineMigrate
