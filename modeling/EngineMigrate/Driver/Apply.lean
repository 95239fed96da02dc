import EngineMigrate.Driver.Driver

/-!
Bringing a database to a target: the steps of the plan are staged in one session and committed at once,
so that a step that cannot be staged leaves the server untouched.
-/
namespace EngineMigrate

structure ApplyOptions where
  /-- Plan only. -/
  dryRun : Bool
  /-- Record the versions without running their files. -/
  skipExecution : Bool
deriving DecidableEq, Repr

/-- A step that was taken, or would be. -/
structure Applied where
  version : Nat
  name : Option String
  direction : Direction
deriving DecidableEq, Repr

structure ApplyResult where
  migrations : List Applied
  dryRun : Bool
deriving DecidableEq, Repr

def Step.applied (s : Step) : Applied := ⟨s.version, s.name, s.direction⟩

def Step.change (s : Step) : Change :=
  match s.direction with
  | .up => .record s.version s.name
  | .down => .erase s.version

namespace Session

def runFiles (t : FileTree) (source : Source) : Session → List MigrationFile →
    Except DriverFault Session
  | s, [] => .ok s
  | s, f :: fs =>
    match source.read t f with
    | .error e => .error (.files e)
    | .ok content => match s.run content f.kind f.fileName with
      | (.error e, _) => .error e
      | (.ok (), s) => s.runFiles t source fs

/-- Stages a step: its files, if they are to be run, and its change. -/
def stageStep (t : FileTree) (source : Source) (skipExecution : Bool) (s : Session) (step : Step) :
    Except DriverFault Session := do
  let s ← s.runFiles t source (if skipExecution then [] else step.files)
  return s.change step.change

def stagePlan (t : FileTree) (source : Source) (skipExecution : Bool) (s : Session) (plan : Plan) :
    Except DriverFault Session :=
  plan.foldlM (stageStep t source skipExecution) s

end Session

namespace Driver

/-- Stages a plan in the open session and commits it; the session ends either way. -/
def execute (t : FileTree) (source : Source) (skipExecution : Bool) (session : Session)
    (plan : Plan) : Act Unit :=
  match session.stagePlan t source skipExecution plan with
  | .ok session => unlock session
  | .error f => fun d => return (.error f, d.release)

def apply (t : FileTree) (source : Source) (target : Target) (options : ApplyOptions) :
    Act ApplyResult := do
  scan
  let plan ← Action.ofExcept .plan (Plan.build source (← get).applied target)
  let migrations := plan.map Step.applied
  if plan.isEmpty || options.dryRun then return ⟨migrations, options.dryRun⟩
  let session ← lock
  execute t source options.skipExecution session plan
  return ⟨migrations, false⟩

end Driver

theorem Change.applyTo_change (applied : VersionSet) (s : Step) :
    s.change.applyTo applied = Plan.replayStep applied s := by
  unfold Step.change Plan.replayStep
  cases s.direction <;> rfl

theorem Change.applyAll_changes (applied : VersionSet) (p : Plan) :
    Change.applyAll applied (p.map Step.change) = Plan.replay applied p := by
  induction p generalizing applied with
  | nil => rfl
  | cons s p ih =>
    simp only [List.map_cons, Change.applyAll, Plan.replay, List.foldl_cons, applyTo_change]
    exact ih _

end EngineMigrate
