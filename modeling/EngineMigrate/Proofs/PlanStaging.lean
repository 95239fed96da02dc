import EngineMigrate.Proofs.ClientTask
import EngineMigrate.Proofs.FaultTrace

/-!
What an application hands to its commit.  What a file is staged as is told from its content alone, and
after the scan an application is one choice between a few ends.  Main statement: the operations are those
of the files, step by step and file by file, each with its file; behind them the changes of the steps are
recorded; and within a step SQL and metadata keep their order.
-/
namespace EngineMigrate

namespace OperationFile

/-- The operations that a text lists: one for each item, in order, or none if the text holds nothing. -/
inductive Lists (text : String) : List Operation → Prop where
  | nothing (h : Yaml.Value.parse? text = some .null) : Lists text []
  | items {vs : List Yaml.Value} {os : List Operation}
    (h : Yaml.Value.parse? text = some (.sequence vs)) (hos : vs.map operation? = os.map some) :
    Lists text os

theorem parse_eq_ok_iff {text : String} {os : List Operation} : parse text = .ok os ↔ Lists text os := by
  constructor
  · intro h
    simp only [parse] at h
    split at h
    · cases h
    · rename_i hnull
      cases h
      exact .nothing hnull
    · rename_i vs hvs
      exact .items hvs (operations_eq_ok_iff.1 h)
    · cases h
  · rintro (hnull | ⟨hvs, hos⟩)
    · simp only [parse, hnull]
    · simp only [parse, hvs]
      exact operations_eq_ok_iff.2 hos

end OperationFile

/-- The operations that a text stands for in a session: SQL is one operation with the text as it stands, or
none if it is blank; metadata the operations that it lists. -/
inductive Session.Reads (s : Session) : Kind → String → List Operation → Prop where
  | blank {content : String} (h : Text.allBlank content = true) : Reads s .sql content []
  | sql {content : String} (h : Text.allBlank content = false) :
    Reads s .sql content [s.route.operation (s.sqlArgs content)]
  | metadata {content : String} {os : List Operation} (h : OperationFile.Lists content os) :
    Reads s .metadata content os

theorem Session.operations_eq_ok_iff {s : Session} {kind : Kind} {content : String} {os : List Operation} :
    s.operations kind content = .ok os ↔ s.Reads kind content os := by
  constructor
  · intro h
    cases kind with
    | sql =>
      simp only [operations] at h
      split at h
      · rename_i hblank
        cases h
        exact .blank hblank
      · rename_i hblank
        cases h
        exact .sql (Bool.eq_false_iff.2 hblank)
    | metadata => exact .metadata (OperationFile.parse_eq_ok_iff.1 h)
  · rintro (hblank | hblank | hlists)
    · simp [operations, hblank]
    · simp [operations, hblank]
    · exact OperationFile.parse_eq_ok_iff.2 hlists

/-- What a file is staged as in a session: SQL as one operation with the text as it stands, or as none if
it is blank; metadata as the operations that it lists.  Each is put down to the file. -/
inductive MigrationFile.StagedAs (t : FileTree) (source : Source) (s : Session) (f : MigrationFile) :
    List Staged → Prop where
  | blank {content : String} (hread : source.read t f = .ok content) (hkind : f.kind = .sql)
    (h : Text.allBlank content = true) : StagedAs t source s f []
  | sql {content : String} (hread : source.read t f = .ok content) (hkind : f.kind = .sql)
    (h : Text.allBlank content = false) :
    StagedAs t source s f [⟨s.route.operation (s.sqlArgs content), some f.fileName⟩]
  | metadata {content : String} {os : List Operation} (hread : source.read t f = .ok content)
    (hkind : f.kind = .metadata) (h : OperationFile.Lists content os) :
    StagedAs t source s f (os.map (⟨·, some f.fileName⟩))

/-- The files that a plan runs, in order; none if it is only to be recorded. -/
def Plan.executed (skipExecution : Bool) (p : Plan) : List MigrationFile :=
  if skipExecution then [] else p.flatMap Step.files

theorem Plan.executed_cons (skipExecution : Bool) (step : Step) (p : Plan) :
    Plan.executed skipExecution (step :: p) =
      (if skipExecution then [] else step.files) ++ p.executed skipExecution := by
  cases skipExecution <;> simp [executed]

theorem mapM_eq_some_iff {α β : Type} {f : α → Option β} {as : List α} {bs : List β} :
    as.mapM f = some bs ↔ List.Forall₂ (fun a b => f a = some b) as bs := by
  induction as generalizing bs with
  | nil => simp [eq_comm]
  | cons a as ih =>
    simp only [List.mapM_cons, Option.bind_eq_bind, Option.bind_eq_some_iff, Option.pure_def,
      Option.some.injEq, List.forall₂_cons_left_iff]
    constructor
    · rintro ⟨b, hb, bs, hbs, rfl⟩
      exact ⟨b, bs, hb, ih.1 hbs, rfl⟩
    · rintro ⟨b, bs, hb, hbs, rfl⟩
      exact ⟨b, hb, bs, ih.2 hbs, rfl⟩

namespace Session

variable {t : FileTree} {source : Source} {s : Session}

/-- What a file is staged as follows from the text that is read. -/
theorem fileItems_eq_some_iff {f : MigrationFile} {items : List Staged} :
    s.fileItems t source f = some items ↔ f.StagedAs t source s items := by
  constructor
  · intro h
    simp only [fileItems] at h
    split at h
    · cases h
    · rename_i content hread
      split at h
      · cases h
      · rename_i os hos
        cases h
        generalize hkind : f.kind = kind at hos
        cases operations_eq_ok_iff.1 hos with
        | blank hblank => exact .blank hread hkind hblank
        | sql hblank => exact .sql hread hkind hblank
        | metadata hlists => exact .metadata hread hkind hlists
  · rintro (⟨hread, hkind, hblank⟩ | ⟨hread, hkind, hblank⟩ | ⟨hread, hkind, hlists⟩)
    · simp [fileItems, hread, hkind, operations_eq_ok_iff.2 (.blank hblank)]
    · simp [fileItems, hread, hkind, operations_eq_ok_iff.2 (.sql hblank)]
    · simp [fileItems, hread, hkind, operations_eq_ok_iff.2 (.metadata hlists)]

theorem rightUnique_stagedAs : Relator.RightUnique (MigrationFile.StagedAs t source s) := by
  intro f items items' h h'
  have hsome := fileItems_eq_some_iff.2 h
  rw [fileItems_eq_some_iff.2 h'] at hsome
  exact (Option.some.inj hsome).symm

theorem exists_runFiles_iff {fs : List MigrationFile} :
    (∃ s', s.runFiles t source fs = .ok s') ↔ ∀ f ∈ fs, ∃ items, s.fileItems t source f = some items := by
  induction fs generalizing s with
  | nil => simp [runFiles]
  | cons f fs ih =>
    rw [List.forall_mem_cons]
    cases hread : source.read t f with
    | error e => simp [runFiles, fileItems, hread]
    | ok content =>
      cases ho : s.operations f.kind content with
      | error e => simp [runFiles, fileItems, hread, run, ho]
      | ok os =>
        have happend : (s.appendAll os f.fileName).fileItems t source = s.fileItems t source :=
          fileItems_congr rfl rfl
        simp only [runFiles, hread, run, ho, ih, happend]
        simp [fileItems, hread, ho]

/-- A plan is staged if each file that it runs stands for something. -/
theorem exists_stagePlan_iff {skip : Bool} {p : Plan} :
    (∃ s', s.stagePlan t source skip p = .ok s') ↔
      ∀ f ∈ p.executed skip, ∃ items, s.fileItems t source f = some items := by
  induction p generalizing s with
  | nil => cases skip <;> simp [Plan.executed, stagePlan, pure, Except.pure]
  | cons step p ih =>
    rw [stagePlan_cons, Plan.executed_cons, List.forall_mem_append, ← exists_runFiles_iff]
    cases hr : s.runFiles t source (if skip then [] else step.files) with
    | error e => simp
    | ok s₁ =>
      have hsame := (items_runFiles hr).1
      have hchange : (s₁.change step.change).fileItems t source = s.fileItems t source :=
        (fileItems_congr rfl rfl).trans hsame
      simp [ih, hchange]

/-- What is staged for a plan: each file that it runs as what it stands for, and the change of each of its
steps. -/
structure Stages (t : FileTree) (source : Source) (skip : Bool) (p : Plan) (s s' : Session) : Prop where
  items : ∃ parts, List.Forall₂ (MigrationFile.StagedAs t source s) (p.executed skip) parts ∧
    s'.bulk.items = s.bulk.items ++ parts.flatten
  changes : s'.changes = s.changes ++ p.map Step.change

theorem stages_of_stagePlan {skip : Bool} {p : Plan} {s' : Session}
    (h : s.stagePlan t source skip p = .ok s') : s.Stages t source skip p s' := by
  obtain ⟨parts, hparts, hitems⟩ := items_stagePlan h
  have hread : List.Forall₂ (MigrationFile.StagedAs t source s) (p.executed skip) parts :=
    (mapM_eq_some_iff.1 hparts).imp fun f items => fileItems_eq_some_iff.1
  exact ⟨⟨parts, hread, hitems⟩, changes_stagePlan h⟩

end Session

namespace Source

/-- Whether a file of one kind may be run before one of another: on the way up no SQL behind metadata, on
the way down no metadata behind SQL. -/
def MayPrecede : Direction → Kind → Kind → Prop
  | .up, k, k' => k = .metadata → k' = .metadata
  | .down, k, k' => k = .sql → k' = .sql

theorem kind_of_mem_ofKind {k : Kind} {fs : List MigrationFile} {f : MigrationFile}
    (hf : f ∈ ofKind k fs) : f.kind = k := by
  simpa using (List.mem_filter.1 hf).2

theorem ofKind_ofKind (k k' : Kind) (fs : List MigrationFile) :
    ofKind k (ofKind k' fs) = if k = k' then ofKind k fs else [] := by
  by_cases h : k = k'
  · subst h
    simp [ofKind, List.filter_filter]
  · rw [if_neg h]
    refine List.filter_eq_nil_iff.2 fun f hf => ?_
    rw [kind_of_mem_ofKind hf]
    simpa using Ne.symm h

theorem pairwise_executionOrder (d : Direction) (fs : List MigrationFile) :
    (executionOrder d fs).Pairwise fun f g => MayPrecede d f.kind g.kind := by
  have hsame : ∀ k, (ofKind k fs).Pairwise fun f g => MayPrecede d f.kind g.kind := by
    intro k
    refine List.pairwise_of_forall_mem_list fun f hf g hg => ?_
    rw [kind_of_mem_ofKind hf, kind_of_mem_ofKind hg]
    cases d <;> exact id
  cases d with
  | up => exact List.pairwise_append.2 ⟨hsame _, hsame _, fun f _ g hg _ => kind_of_mem_ofKind hg⟩
  | down => exact List.pairwise_append.2 ⟨hsame _, hsame _, fun f _ g hg _ => kind_of_mem_ofKind hg⟩

/-- Among files of one kind the order of execution is that of the scan. -/
theorem ofKind_executionOrder (k : Kind) (d : Direction) (fs : List MigrationFile) :
    ofKind k (executionOrder d fs) = ofKind k fs := by
  have happend : ∀ xs ys, ofKind k (xs ++ ys) = ofKind k xs ++ ofKind k ys :=
    fun xs ys => List.filter_append xs ys
  cases d <;> cases k <;> simp [executionOrder, happend, ofKind_ofKind]

/-- The order in which the files of a step are run: one kind before the other as the direction says, and
within a kind as they were scanned. -/
structure Orders (source : Source) (step : Step) : Prop where
  kinds : step.files.Pairwise fun f g => MayPrecede step.direction f.kind g.kind
  scanned : ∀ k, ofKind k step.files = source.files.filter fun f =>
    f.version == step.version && f.direction == step.direction && f.kind == k

theorem orders_of_sourced {source : Source} {step : Step} (h : Plan.Sourced source step) :
    source.Orders step := by
  have hfiles : step.files = source.filesOf step.version step.direction := h.1
  constructor
  · rw [hfiles]
    exact pairwise_executionOrder _ _
  · intro k
    rw [hfiles, filesOf, ofKind_executionOrder, ofKind, List.filter_filter]
    refine List.filter_congr fun f _ => ?_
    rw [has, Bool.and_comm]

end Source

namespace Driver

variable {t : FileTree} {source : Source} {target : Target} {options : ApplyOptions}

/-- An application after its scan: there is no plan or nothing to do, the files cannot be staged, or a
session is committed. -/
def applyScanned (t : FileTree) (source : Source) (target : Target) (options : ApplyOptions) :
    Act ApplyResult := fun d =>
  match Plan.build source d.applied target with
  | .error e => .done (.error (.plan e), d)
  | .ok plan =>
    if plan.isEmpty || options.dryRun then .done (.ok ⟨plan.map Step.applied, options.dryRun⟩, d)
    else if d.locked then .done (.error .locked, d)
    else match (Session.start d.tracker.route d.skipConsistencyCheck).stagePlan t source
        options.skipExecution plan with
      | .error e => .done (.error e, d)
      | .ok s => unlock s { d with locked := true } >>= fun r =>
        .done (r.1.map fun _ => ⟨plan.map Step.applied, false⟩, r.2)

theorem apply_eq :
    apply t source target options = scan >>= fun _ => applyScanned t source target options := by
  rw [apply]
  refine bind_congr fun _ => funext fun d => ?_
  simp only [applyScanned, Action.bind_apply, Action.get_apply, Exchange.done_bind,
    Action.ofExcept_apply]
  cases Plan.build source d.applied target with
  | error e => rfl
  | ok plan =>
    simp only [mapError_ok]
    cases plan.isEmpty || options.dryRun with
    | true => rfl
    | false =>
      simp only [Bool.false_eq_true, if_false, Action.bind_apply, lock_apply, Exchange.done_bind]
      cases hlocked : d.locked with
      | true => rfl
      | false =>
        simp only [Bool.false_eq_true, if_false, execute]
        cases (Session.start d.tracker.route d.skipConsistencyCheck).stagePlan t source
            options.skipExecution plan with
        | error e =>
          obtain ⟨tracker, applied, locked, skip⟩ := d
          obtain rfl : locked = false := hlocked
          rfl
        | ok s =>
          simp only
          apply bind_congr
          intro r
          obtain ⟨r, d'⟩ := r
          cases r <;> rfl

/-- The ends of an application once it has scanned. -/
inductive Ends (t : FileTree) (source : Source) (target : Target) (options : ApplyOptions)
    (d : Driver) : Prop where
  | unplanned {e : PlanFault} (hplan : Plan.build source d.applied target = .error e)
    (h : applyScanned t source target options d = .done (.error (.plan e), d))
  /-- There is nothing to do, or nothing is to be done. -/
  | idle {plan : Plan} (hplan : Plan.build source d.applied target = .ok plan)
    (hnone : plan = [] ∨ options.dryRun = true)
    (h : applyScanned t source target options d =
      .done (.ok ⟨plan.map Step.applied, options.dryRun⟩, d))
  | refused {plan : Plan} (hplan : Plan.build source d.applied target = .ok plan) (hne : plan ≠ [])
    (hdry : options.dryRun = false) (hlocked : d.locked = true)
    (h : applyScanned t source target options d = .done (.error .locked, d))
  | unstaged {plan : Plan} {e : DriverFault} (hplan : Plan.build source d.applied target = .ok plan)
    (hne : plan ≠ []) (hdry : options.dryRun = false) (hfree : d.locked = false)
    (hstage : (Session.start d.tracker.route d.skipConsistencyCheck).stagePlan t source
      options.skipExecution plan = .error e)
    (h : applyScanned t source target options d = .done (.error e, d))
  | committed {plan : Plan} {s : Session} (hplan : Plan.build source d.applied target = .ok plan)
    (hne : plan ≠ []) (hdry : options.dryRun = false) (hfree : d.locked = false)
    (hstage : (Session.start d.tracker.route d.skipConsistencyCheck).stagePlan t source
      options.skipExecution plan = .ok s)
    (h : applyScanned t source target options d = unlock s { d with locked := true } >>= fun r =>
      .done (r.1.map fun _ => ⟨plan.map Step.applied, false⟩, r.2))

theorem ends_applyScanned (t : FileTree) (source : Source) (target : Target) (options : ApplyOptions)
    (d : Driver) : d.Ends t source target options := by
  cases hplan : Plan.build source d.applied target with
  | error e => exact .unplanned hplan (by simp only [applyScanned, hplan])
  | ok plan =>
    cases hgo : plan.isEmpty || options.dryRun with
    | true =>
      refine .idle hplan (by simpa using hgo) ?_
      simp only [applyScanned, hplan, hgo, if_true]
    | false =>
      obtain ⟨hne, hdry⟩ : plan ≠ [] ∧ options.dryRun = false := by simpa using hgo
      cases hlocked : d.locked with
      | true =>
        refine .refused hplan hne hdry hlocked ?_
        simp only [applyScanned, hplan, hgo, hlocked, Bool.false_eq_true, if_true, if_false]
      | false =>
        cases hstage : (Session.start d.tracker.route d.skipConsistencyCheck).stagePlan t source
            options.skipExecution plan with
        | error e =>
          refine .unstaged hplan hne hdry hlocked hstage ?_
          simp only [applyScanned, hplan, hgo, hlocked, hstage, Bool.false_eq_true, if_false]
        | ok s =>
          refine .committed hplan hne hdry hlocked hstage ?_
          simp only [applyScanned, hplan, hgo, hlocked, hstage, Bool.false_eq_true, if_false]

theorem runs_apply_of_scan {d d₁ : Driver} {look log : List Turn}
    {r : Except DriverFault ApplyResult × Driver} (hscan : (scan d).Runs look (.ok (), d₁)) :
    (apply t source target options d).Runs (look ++ log) r ↔
      (applyScanned t source target options d₁).Runs log r := by
  rw [apply_eq, Action.bind_apply, Exchange.runs_append_bind hscan]

/-- An application of a plan commits one session: the operations of the files in the order of the plan,
each put down to its file, and behind them what records the change of each step.  Nothing else is sent
after the scan, and nothing at all while another session is open. -/
theorem apply_stages {d d₁ : Driver} {look : List Turn} {plan : Plan}
    (hscan : (scan d).Runs look (.ok (), d₁))
    (hplan : Plan.build source d₁.applied target = .ok plan) (hne : plan ≠ [])
    (hdry : options.dryRun = false)
    (hfiles : ∀ f ∈ plan.executed options.skipExecution, ∃ items,
      f.StagedAs t source (.start d₁.tracker.route d₁.skipConsistencyCheck) items) :
    ∃ s : Session,
      (Session.start d₁.tracker.route d₁.skipConsistencyCheck).Stages t source options.skipExecution
        plan s ∧
      (∀ step ∈ plan, source.Orders step) ∧
      (d₁.commitBatches s).flatMap (fun b => b.bulk.items) =
        s.bulk.items ++ d₁.tracker.records (plan.map Step.change) ∧
      ∀ log r d', (apply t source target options d).Runs (look ++ log) (r, d') ↔
        if d₁.locked then log = [] ∧ r = .error .locked ∧ d' = d₁
        else ∃ outcome sent, (unlock s { d₁ with locked := true }).Runs log (outcome, d') ∧
          sent <+: d₁.commitBatches s ∧ (outcome = .ok () → sent = d₁.commitBatches s) ∧
          log.map Turn.request = d₁.checkRequests s ++ sent.map Batch.toRequest ∧
          r = outcome.map fun _ => ⟨plan.map Step.applied, false⟩ := by
  obtain ⟨s, hs⟩ := Session.exists_stagePlan_iff.2 fun f hf =>
    (hfiles f hf).imp fun items => Session.fileItems_eq_some_iff.2
  have hstages := Session.stages_of_stagePlan hs
  have hchanges : s.changes = plan.map Step.change := hstages.changes
  refine ⟨s, hstages, ?_, ?_, fun log r d' => ?_⟩
  · intro step hstep
    exact Source.orders_of_sourced (Plan.sourced_of_build hplan step hstep)
  · rw [items_commitBatches, hchanges]
  · have hgo : (plan.isEmpty || options.dryRun) = false := by simp [hne, hdry]
    have hempty : s.isEmpty = false := by simp [Session.isEmpty, hchanges, hne]
    rw [runs_apply_of_scan hscan, applyScanned]
    simp only [hplan, hgo, hs, Bool.false_eq_true, if_false]
    cases d₁.locked with
    | true =>
      simp only [if_true, Exchange.runs_done, Prod.mk.injEq]
      constructor
      · rintro ⟨hlog, hr, hd⟩
        exact ⟨hlog, hr.symm, hd.symm⟩
      · rintro ⟨hlog, hr, hd⟩
        exact ⟨hlog, hr.symm, hd.symm⟩
    | false =>
      simp only [Bool.false_eq_true, if_false, Exchange.runs_bind, Exchange.runs_done, Prod.mk.injEq]
      constructor
      · rintro ⟨⟨outcome, d''⟩, sent, rest, rfl, hrun, rfl, rfl, rfl⟩
        rw [List.append_nil]
        obtain ⟨batches, hprefix, hlog, hall⟩ := requests_unlock hempty hrun
        exact ⟨outcome, batches, hrun, hprefix, hall, hlog, rfl⟩
      · rintro ⟨outcome, -, hrun, -, -, -, rfl⟩
        exact ⟨(outcome, d'), log, [], by simp, hrun, rfl, rfl, rfl⟩

/-- A table whose metadata is found first, for its directory comes before its file; and a version whose
SQL is blank. -/
def usersTree : FileTree :=
  ⟨[], [(["migrations"], .directory), (["migrations", "1_users"], .directory),
    (["migrations", "1_users", "up.yaml"], .file "- type: a\n- type: b\n".toUTF8),
    (["migrations", "1_users.up.sql"], .file "CREATE TABLE users ()".toUTF8),
    (["migrations", "2_later.up.sql"], .file "\n".toUTF8)]⟩

def usersYaml : MigrationFile := ⟨1, "users", .up, .metadata, ["1_users", "up.yaml"]⟩

def usersSql : MigrationFile := ⟨1, "users", .up, .sql, ["1_users.up.sql"]⟩

def laterSql : MigrationFile := ⟨2, "later", .up, .sql, ["2_later.up.sql"]⟩

def usersSource : Source := ⟨"migrations", [usersYaml, usersSql, laterSql]⟩

def usersPlan : Plan :=
  [⟨1, some "users", .up, [usersSql, usersYaml]⟩, ⟨2, some "later", .up, [laterSql]⟩]

def usersParts : List (List Staged) :=
  [[⟨(SqlRoute.source "").operation (.ofSql "CREATE TABLE users ()"), some usersSql.fileName⟩],
    [⟨.plain "a" .null, some usersYaml.fileName⟩, ⟨.plain "b" .null, some usersYaml.fileName⟩], []]

theorem stagedAs_users : List.Forall₂
    (MigrationFile.StagedAs usersTree usersSource (.start (.source "") false))
    (usersPlan.executed false) usersParts := by
  have hparse : OperationFile.parse "- type: a\n- type: b\n" =
      .ok [.plain "a" .null, .plain "b" .null] := by decide +kernel
  have hsql : usersSource.read usersTree usersSql = .ok "CREATE TABLE users ()" := by decide +kernel
  have hyaml : usersSource.read usersTree usersYaml = .ok "- type: a\n- type: b\n" := by
    decide +kernel
  have hlater : usersSource.read usersTree laterSql = .ok "\n" := by decide +kernel
  refine .cons (.sql hsql rfl (by decide +kernel)) (.cons ?_ (.cons (.blank hlater rfl ?_) .nil))
  · exact .metadata hyaml rfl (OperationFile.parse_eq_ok_iff.1 hparse)
  · decide +kernel

theorem runs_scan_onNoLedger : (scan onNoLedger).Runs
    [⟨LedgerStore.readRequest ⟨Config.default.paths.metadata⟩, noLedger⟩] (.ok (), onNoLedger) := by
  simp only [onNoLedger, Tracker.ofCapability, scan_catalog]
  refine .cons ?_
  simp only [found_noLedger]
  exact ⟨rfl, rfl⟩

/-- The SQL of the table goes first although its metadata is found first, and of the blank file there is
only the version to record. -/
theorem apply_stages_users : ∃ s : Session, s.bulk.items = usersParts.flatten ∧
    s.changes = [.record 1 (some "users"), .record 2 (some "later")] ∧
    (onNoLedger.commitBatches s).flatMap (fun b => b.bulk.items) =
      usersParts.flatten ++ onNoLedger.tracker.records s.changes := by
  have hplan : Plan.build usersSource .empty (.up none) = .ok usersPlan := by decide
  have hfiles : ∀ f ∈ usersPlan.executed false, ∃ items,
      f.StagedAs usersTree usersSource (.start (.source "") false) items := by
    intro f hf
    obtain ⟨i, hi, rfl⟩ := List.getElem_of_mem hf
    exact ⟨_, stagedAs_users.get hi (stagedAs_users.length_eq ▸ hi)⟩
  have hdry : (⟨false, false⟩ : ApplyOptions).dryRun = false := rfl
  obtain ⟨s, ⟨⟨parts, hparts, hitems⟩, hchanges⟩, -, hbatches, -⟩ :=
    apply_stages runs_scan_onNoLedger hplan (by decide) hdry hfiles
  have hunique : parts = usersParts :=
    Session.rightUnique_stagedAs.forall₂ hparts stagedAs_users
  rw [hunique] at hitems
  refine ⟨s, hitems, hchanges, ?_⟩
  rw [hbatches, hitems, hchanges]
  rfl

end Driver

end EngineMigrate
