import EngineMigrate.Local.Source

/-!
Plans: the steps from the applied versions to a target.  Steps up ascend and steps down descend, and a
plan that does both goes down first.
-/
namespace EngineMigrate

/-- Where to take the database. -/
inductive Target where
  /-- Apply pending migrations, all or the next `n`. -/
  | up (limit : Option Nat)
  /-- Roll back applied migrations, all or the last `n`. -/
  | down (limit : Option Nat)
  /-- Until exactly the versions up to this one are applied. -/
  | goto (version : Nat)
  /-- This version alone. -/
  | only (version : Nat) (direction : Direction)
deriving DecidableEq, Repr

inductive PlanFault where
  | versionNotFound (version : Nat)
  | noDownMigration (version : Nat)
  | alreadyApplied (version : Nat)
  | notApplied (version : Nat)
deriving DecidableEq, Repr

def PlanFault.message : PlanFault → String
  | .versionNotFound v => "Migration " ++ toString v ++ " not found in the migrations directory"
  | .noDownMigration v =>
    "Migration " ++ toString v ++ " is applied but not present locally, cannot roll it back"
  | .alreadyApplied v => "Migration " ++ toString v ++ " is already applied"
  | .notApplied v => "Migration " ++ toString v ++ " is not applied"

/-- One version to apply or roll back; without files only its record changes. -/
structure Step where
  version : Nat
  name : Option String
  direction : Direction
  files : List MigrationFile
deriving DecidableEq, Repr

abbrev Plan := List Step

namespace Plan

def takeUpTo {α : Type} : Option Nat → List α → List α
  | some n, xs => xs.take n
  | none, xs => xs

/-- The step for a version.  Going up needs a file, going down only that the version is known. -/
def step (s : Source) (direction : Direction) (version : Nat) : Except PlanFault Step :=
  let files := s.filesOf version direction
  match direction with
  | .up =>
    if files.isEmpty then .error (.versionNotFound version)
    else .ok ⟨version, s.name? version, .up, files⟩
  | .down =>
    if s.contains version then .ok ⟨version, s.name? version, .down, files⟩
    else .error (.noDownMigration version)

def steps (s : Source) (direction : Direction) (versions : List Nat) : Except PlanFault Plan :=
  versions.mapM (step s direction)

/-- The versions with an up file that are not applied, ascending. -/
def pending (s : Source) (applied : VersionSet) : List Nat :=
  s.up.toList.filter fun v => !applied.contains v

def build (s : Source) (applied : VersionSet) : Target → Except PlanFault Plan
  | .up limit => steps s .up (takeUpTo limit (pending s applied))
  | .down limit => steps s .down (takeUpTo limit applied.toList.reverse)
  | .goto version => do
    if !s.contains version then throw (.versionNotFound version)
    let down ← steps s .down (applied.toList.reverse.filter (version < ·))
    let up ← steps s .up ((pending s applied).filter (· ≤ version))
    return down ++ up
  | .only version .up =>
    if applied.contains version then .error (.alreadyApplied version)
    else steps s .up [version]
  | .only version .down =>
    if applied.contains version then steps s .down [version]
    else .error (.notApplied version)

/-- The set of applied versions after one step, and after all of them. -/
def replayStep (applied : VersionSet) (step : Step) : VersionSet :=
  match step.direction with
  | .up => applied.insert step.version
  | .down => applied.erase step.version

def replay (applied : VersionSet) (plan : Plan) : VersionSet := plan.foldl replayStep applied

@[simp] theorem replay_append (applied : VersionSet) (p q : Plan) :
    replay applied (p ++ q) = replay (replay applied p) q := by
  simp [replay]

end Plan

/-- One line of the status: a version that has a file, is applied, or both. -/
structure StatusRow where
  version : Nat
  name : Option String
  sourcePresent : Bool
  databasePresent : Bool
deriving DecidableEq, Repr

/-- Local files and applied versions side by side, ascending. -/
def Source.status (s : Source) (applied : VersionSet) : List StatusRow :=
  (VersionSet.ofList (s.versions.toList ++ applied.toList)).toList.map fun v =>
    ⟨v, s.name? v, s.contains v, applied.contains v⟩

end EngineMigrate
