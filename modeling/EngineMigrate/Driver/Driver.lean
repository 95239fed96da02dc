import EngineMigrate.Driver.Session
import EngineMigrate.Tracking.Tracker

/-!
The driver: it knows which versions are applied and commits sessions.  The bulks of a commit are sent in
order; each is atomic by itself, and the versions count as applied only when all were accepted.
-/
namespace EngineMigrate

structure Driver where
  tracker : Tracker
  applied : VersionSet
  /-- Whether a session is open. -/
  locked : Bool
  skipConsistencyCheck : Bool
deriving DecidableEq

namespace Driver

abbrev Act (α : Type) := Action Driver DriverFault α

def track {α : Type} (x : Tracker.Act α) : Act α :=
  Action.focus Driver.tracker (fun d t => { d with tracker := t }) .tracking x

def scan : Act Unit := do
  let entries ← track Tracker.applied
  modify fun d => { d with applied := .ofList (entries.map Entry.version) }

def start (tracker : Tracker) (skipConsistencyCheck : Bool) : Driver :=
  ⟨tracker, .empty, false, skipConsistencyCheck⟩

/-- A driver with its tracker in place: makes sure that the server can keep records and reads them. -/
def attach (tracker : Tracker) (skipConsistencyCheck : Bool) : Attempt DriverFault Driver :=
  ExceptT.mk do
    let (r, driver) ← (do track Tracker.prepare; scan : Act Unit) (start tracker skipConsistencyCheck)
    return r.map fun _ => driver

/-- A driver for the server of a project, which is asked for its capability unless that is given. -/
def connect (config : Config) (capability : Option Capability) : Attempt DriverFault Driver := do
  let c ← (Capability.detect config.paths.version capability).within .version
  attach (.ofCapability config c) config.skipConsistencyCheck

/-- The version that the database is at, and whether it was left half done, which no commit does. -/
def version (d : Driver) : Option Nat × Bool := (d.applied.last?, false)

def lock : Act Session := do
  let d ← get
  if d.locked then throw .locked
  set { d with locked := true }
  return .start d.tracker.route d.skipConsistencyCheck

/-- After a session is gone, committed or not. -/
def release (d : Driver) : Driver := { d with locked := false }

/-- Sends the bulks up to the first that is refused. -/
def sendBatches : List Batch → Attempt DriverFault Unit
  | [] => pure ()
  | batch :: rest => do
    let response ← (Attempt.post batch.path batch.request).within .send
    match response.checked with
    | .ok _ => sendBatches rest
    | .error f => throw (.ofCommit f batch.request batch.bulk)

/-- Stages the changes of a session and sends its bulks. -/
def transmit (s : Session) : Act Unit := do
  let bulk ← if s.changes.isEmpty then pure s.bulk else track (Tracker.stage s.changes s.bulk)
  Action.ofAttempt id (sendBatches ((← get).tracker.batches bulk))

def afterCommit (changes : List Change) (d : Driver) : Driver :=
  { d with tracker := d.tracker.committed, applied := Change.applyAll d.applied changes }

def afterAbort (d : Driver) : Driver := { d with tracker := d.tracker.aborted }

/-- Commits a session; an empty one sends nothing. -/
def commit (s : Session) : Act Unit := fun d =>
  if s.isEmpty then return (.ok (), d)
  else do
    let (r, d) ← transmit s d
    match r with
    | .ok () => return (.ok (), d.afterCommit s.changes)
    | .error f => return (.error f, d.afterAbort)

def unlock (s : Session) : Act Unit := fun d => do
  let (r, d) ← commit s d
  return (r, d.release)

def record (c : Change) : Act Unit := do
  let session ← lock
  unlock (session.change c)

def getSetting (name : String) : Act String := track (Tracker.getSetting name)

def updateSetting (name value : String) : Act Unit := track (Tracker.updateSetting name value)

@[simp] theorem applied_afterAbort (d : Driver) : d.afterAbort.applied = d.applied := rfl

@[simp] theorem applied_release (d : Driver) : d.release.applied = d.applied := rfl

end Driver

end EngineMigrate
