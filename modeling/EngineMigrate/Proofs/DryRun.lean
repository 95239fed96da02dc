import EngineMigrate.Proofs.ReadOnly
import EngineMigrate.Proofs.SecondRun

/-!
Applications that are only planned, beside those that are carried out.  Both begin with the scan; the one
ends there, with the steps of the plan, and the other, where it succeeds, has committed just these.  Main
statement: from one reply to the scan, a dry run tells what the real run tells.
-/
namespace EngineMigrate.Driver

variable {t : FileTree} {source : Source} {target : Target} {skip : Bool}

theorem reads_scanRequest (d : Driver) : d.scanRequest.Reads := by
  obtain ⟨tracker, applied, locked, skip⟩ := d
  cases tracker with
  | tables t => exact .query t Statement.isQuery_selectVersions
  | catalog t => exact .ledger t.store

theorem runs_scan_iff {d : Driver} {log : List Turn} {r : Except DriverFault Unit × Driver} :
    (scan d).Runs log r ↔ ∃ reply, log = [⟨d.scanRequest, reply⟩] ∧ d.scanned reply = r := by
  rw [scan_eq]
  constructor
  · rintro ⟨reply, rest, rfl, rfl, h⟩
    exact ⟨reply, rfl, h⟩
  · rintro ⟨reply, rfl, h⟩
    exact .cons ⟨rfl, h⟩

theorem applyScanned_dryRun (d : Driver) : applyScanned t source target ⟨true, skip⟩ d =
    .done (((Plan.build source d.applied target).mapError .plan).map
      fun plan => ⟨plan.map Step.applied, true⟩, d) := by
  simp only [applyScanned, Bool.or_true, if_true]
  cases Plan.build source d.applied target <;> rfl

theorem driver_of_unlock {d d' : Driver} {s : Session} {log : List Turn} (hs : s.isEmpty = false)
    (h : (unlock s d).Runs log (.ok (), d')) : d' = (d.succeeded s).release := by
  obtain ⟨d'', hcommit, rfl⟩ := runs_unlock_iff.1 h
  rcases runs_commit hs hcommit with ⟨e, -, hr, -⟩ | ⟨look, sent, -, -, -, ⟨-, rfl⟩ | ⟨hr, -⟩⟩
  · cases hr
  · rfl
  · exact absurd rfl hr

/-- A real run that succeeds had a plan after its scan.  It tells the steps of the plan, and the driver is
left with the plan replayed. -/
theorem plan_of_applyScanned {d d' : Driver} {log : List Turn} {result : ApplyResult}
    (h : (applyScanned t source target ⟨false, skip⟩ d).Runs log (.ok result, d')) :
    ∃ plan, Plan.build source d.applied target = .ok plan ∧
      result = ⟨plan.map Step.applied, false⟩ ∧ d'.applied = Plan.replay d.applied plan := by
  cases ends_applyScanned t source target ⟨false, skip⟩ d with
  | unplanned hplan hend =>
    rw [hend] at h
    cases h.2
  | @idle plan hplan hnone hend =>
    rw [hend] at h
    cases h.2
    obtain rfl : plan = [] := hnone.resolve_right (by simp)
    exact ⟨[], hplan, rfl, rfl⟩
  | refused hplan hne hdry hlocked hend =>
    rw [hend] at h
    cases h.2
  | unstaged hplan hne hdry hfree hstage hend =>
    rw [hend] at h
    cases h.2
  | @committed plan s hplan hne hdry hfree hstage hend =>
    rw [hend] at h
    obtain ⟨⟨r, d''⟩, first, rest, rfl, hunlock, -, hr⟩ := Exchange.runs_bind.1 h
    cases r with
    | error e => cases hr
    | ok u =>
      cases hr
      have hchanges : s.changes = plan.map Step.change := Session.changes_stagePlan hstage
      have hs : s.isEmpty = false := by simp [Session.isEmpty, hchanges, hne]
      rw [driver_of_unlock hs hunlock]
      refine ⟨plan, hplan, rfl, ?_⟩
      rw [← Change.applyAll_changes, ← hchanges]
      rfl

/-- A dry run sends its scan, which reads, and leaves the driver as the scan does and the lock as it was.
And where a real run succeeds, the dry run that gets the same reply to its scan succeeds with the same
steps; which are those that the driver has replayed at the end of the real run. -/
theorem dryRun_foretells (t : FileTree) (source : Source) (target : Target) (skip : Bool) (d : Driver) :
    (∀ log r d₁, (apply t source target ⟨true, skip⟩ d).Runs log (r, d₁) →
      log.map Turn.request = [d.scanRequest] ∧ d.scanRequest.Reads ∧ d₁.locked = d.locked ∧
        ∃ outcome, (scan d).Runs log (outcome, d₁)) ∧
    ∀ log result d', (apply t source target ⟨false, skip⟩ d).Runs log (.ok result, d') →
      ∃ look rest d₁ plan, log = look :: rest ∧ (scan d).Runs [look] (.ok (), d₁) ∧
        (∀ turns r, (apply t source target ⟨true, skip⟩ d).Runs (look :: turns) r ↔
          turns = [] ∧ r = (.ok ⟨result.migrations, true⟩, d₁)) ∧
        Plan.build source d₁.applied target = .ok plan ∧
        result.migrations = plan.map Step.applied ∧ d'.applied = Plan.replay d₁.applied plan := by
  constructor
  · intro log r d₁ h
    rw [apply_eq, Action.bind_apply] at h
    obtain ⟨⟨outcome, d₂⟩, look, rest, rfl, hscan, hrest⟩ := Exchange.runs_bind.1 h
    obtain ⟨hrequest, hlocked, -⟩ := runs_scan hscan
    have hend : rest = [] ∧ d₂ = d₁ := by
      cases outcome with
      | error e => exact ⟨hrest.1, congrArg Prod.snd hrest.2⟩
      | ok u =>
        simp only [applyScanned_dryRun] at hrest
        exact ⟨hrest.1, congrArg Prod.snd hrest.2⟩
    obtain ⟨rfl, rfl⟩ := hend
    rw [List.append_nil]
    exact ⟨hrequest, d.reads_scanRequest, hlocked, outcome, hscan⟩
  · intro log result d' h
    rw [apply_eq, Action.bind_apply] at h
    obtain ⟨⟨outcome, d₁⟩, first, rest, rfl, hscan, hrest⟩ := Exchange.runs_bind.1 h
    cases outcome with
    | error e => cases hrest.2
    | ok u =>
      obtain ⟨plan, hplan, rfl, hreached⟩ := plan_of_applyScanned hrest
      obtain ⟨reply, rfl, -⟩ := runs_scan_iff.1 hscan
      refine ⟨_, rest, d₁, plan, rfl, hscan, fun turns r => ?_, hplan, rfl, hreached⟩
      have hdry : (apply t source target ⟨true, skip⟩ d).Runs ([⟨d.scanRequest, reply⟩] ++ turns) r ↔
          (applyScanned t source target ⟨true, skip⟩ d₁).Runs turns r := runs_apply_of_scan hscan
      rw [← List.singleton_append, hdry, applyScanned_dryRun, hplan, Exchange.runs_done,
        eq_comm (a := r)]
      rfl

/-- A version that the catalog does not list: the dry run tells it after one turn and leaves it as it is,
the real run goes on and applies it. -/
theorem dryRun_foretells_table : ∃ look rest d₁ d',
    (apply tableTree tableSource (.up none) ⟨false, false⟩ entryDriver).Runs (look :: rest)
      (.ok ⟨[⟨2, some "b", .up⟩], false⟩, d') ∧
    (apply tableTree tableSource (.up none) ⟨true, false⟩ entryDriver).Runs [look]
      (.ok ⟨[⟨2, some "b", .up⟩], true⟩, d₁) ∧
    look.request = entryDriver.scanRequest ∧ 2 ∉ d₁.applied ∧ 2 ∈ d'.applied := by
  obtain ⟨d', s', hleads⟩ := leads_apply_entryDriver
  obtain ⟨log, hreal⟩ := hleads.exists_runs
  obtain ⟨hreads, hforetells⟩ := dryRun_foretells tableTree tableSource (.up none) false entryDriver
  obtain ⟨look, rest, d₁, plan, rfl, -, hdry, hplan, hlist, hreached⟩ := hforetells log _ d' hreal
  have hrun := (hdry [] _).2 ⟨rfl, rfl⟩
  obtain ⟨hrequest, -⟩ := hreads _ _ _ hrun
  obtain ⟨step, rfl, hstep⟩ := List.map_eq_singleton_iff.1 hlist.symm
  obtain ⟨hversion, -, hdirection⟩ := (Applied.mk.injEq ..).mp hstep
  obtain ⟨hnew, -⟩ := Plan.executable_of_build hplan
  rw [hversion, hdirection] at hnew
  refine ⟨look, rest, d₁, d', hreal, hrun, List.singleton_inj.1 hrequest, fun hold => ?_, ?_⟩
  · cases hnew.1 hold
  · rw [hreached]
    simp [Plan.replay, Plan.replayStep, hversion, hdirection]

end EngineMigrate.Driver
