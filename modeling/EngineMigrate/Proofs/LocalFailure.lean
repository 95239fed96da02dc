import EngineMigrate.Proofs.PlanStaging

/-!
Applications that fail without the server.  What obstructs one is told from the files and from what its
scan has found.  Main statement: it fails with a local fault exactly if it is obstructed, and then the
scan is all that it has sent and all that it has changed.
-/
namespace EngineMigrate

/-- A file that cannot be staged: its text cannot be read, or it is metadata and lists no operations. -/
def MigrationFile.Unstageable (t : FileTree) (source : Source) (f : MigrationFile) : Prop :=
  (∃ e, source.read t f = .error e) ∨
    f.kind = .metadata ∧ ∃ content, source.read t f = .ok content ∧
      ∀ os, ¬ OperationFile.Lists content os

theorem MigrationFile.unstageable_iff {t : FileTree} {source : Source} {s : Session}
    {f : MigrationFile} : f.Unstageable t source ↔ ∀ items, ¬ f.StagedAs t source s items := by
  constructor
  · rintro (⟨e, he⟩ | ⟨hkind, content, hread, hno⟩) items h
    · cases h with
      | blank hread => simp [he] at hread
      | sql hread => simp [he] at hread
      | metadata hread => simp [he] at hread
    · cases h with
      | blank _ hsql => simp [hkind] at hsql
      | sql _ hsql => simp [hkind] at hsql
      | metadata hread' _ hlists =>
        rw [hread] at hread'
        cases hread'
        exact hno _ hlists
  · intro hno
    cases hread : source.read t f with
    | error e => exact .inl ⟨e, hread⟩
    | ok content =>
      cases hkind : f.kind with
      | sql =>
        cases hblank : Text.allBlank content with
        | true => exact absurd (.blank hread hkind hblank) (hno _)
        | false => exact absurd (.sql hread hkind hblank) (hno _)
      | metadata =>
        refine .inr ⟨hkind, content, hread, fun os hlists => ?_⟩
        exact hno _ (.metadata hread hkind hlists)

/-- Comes from the server: it was not reached, its records are not what they should be, or it refused one of
the batches. -/
inductive DriverFault.OfServer (bs : List Batch) : DriverFault → Prop where
  | tracking (e : TrackingFault) : OfServer bs (.tracking e)
  | send (e : SendFault) : OfServer bs (.send e)
  | api (e : ApiFault) : OfServer bs (.api e)
  | migration {b : Batch} {e : ApiFault} {blame : Blame} (hb : b ∈ bs)
    (h : b.bulk.blame? b.request e = some blame) : OfServer bs (.migration blame)

theorem DriverFault.OfServer.mono {bs bs' : List Batch} {f : DriverFault} (h : f.OfServer bs)
    (hsub : bs ⊆ bs') : f.OfServer bs' := by
  cases h with
  | migration hb hblame => exact .migration (hsub hb) hblame
  | tracking e => exact .tracking e
  | send e => exact .send e
  | api e => exact .api e

theorem DriverFault.OfServer.not_isLocal {bs : List Batch} {f : DriverFault} (h : f.OfServer bs) :
    ¬ f.IsLocal := by
  cases h <;> exact id

namespace Driver

variable {t : FileTree} {source : Source} {target : Target} {options : ApplyOptions}

/-- What keeps an application from its commit once the driver has scanned: there is no plan, another
session is open, or the plan runs a file that cannot be staged. -/
inductive Obstructed (t : FileTree) (source : Source) (target : Target) (options : ApplyOptions)
    (d : Driver) : Prop where
  | plan {e : PlanFault} (h : Plan.build source d.applied target = .error e)
  | locked {plan : Plan} (hplan : Plan.build source d.applied target = .ok plan) (hne : plan ≠ [])
    (hdry : options.dryRun = false) (h : d.locked = true)
  | file {plan : Plan} {f : MigrationFile} (hplan : Plan.build source d.applied target = .ok plan)
    (hdry : options.dryRun = false) (hf : f ∈ plan.executed options.skipExecution)
    (h : f.Unstageable t source)

def scanRequest (d : Driver) : Request :=
  match d.tracker with
  | .tables t => t.request .selectVersions
  | .catalog t => t.store.readRequest

theorem runs_scan {d d' : Driver} {log : List Turn} {r : Except DriverFault Unit}
    (h : (scan d).Runs log (r, d')) :
    log.map Turn.request = [d.scanRequest] ∧ d'.locked = d.locked ∧
      ∀ f, r = .error f → f.OfServer [] := by
  obtain ⟨tracker, applied, locked, skip⟩ := d
  cases tracker with
  | tables t =>
    rw [scan_tables] at h
    obtain ⟨reply, rest, rfl, rfl, h⟩ := h
    cases hlisted : Tables.listed reply <;> rw [hlisted] at h <;> cases h
    · exact ⟨rfl, rfl, by rintro f hf; cases hf; exact .tracking _⟩
    · exact ⟨rfl, rfl, by rintro f hf; cases hf⟩
  | catalog t =>
    rw [scan_catalog] at h
    obtain ⟨reply, rest, rfl, rfl, h⟩ := h
    cases hfound : LedgerStore.found reply <;> rw [hfound] at h <;> cases h
    · exact ⟨rfl, rfl, by rintro f hf; cases hf; exact .tracking _⟩
    · exact ⟨rfl, rfl, by rintro f hf; cases hf⟩

theorem ofServer_of_check {d : Driver} {s : Session} {log : List Turn} {f : DriverFault}
    (h : (d.check s).Runs log (.error f)) : f.OfServer [] := by
  obtain ⟨tracker, applied, locked, skip⟩ := d
  cases tracker with
  | tables t => cases h.2
  | catalog t =>
    cases hc : s.changes.isEmpty with
    | true =>
      simp only [check, hc, if_true] at h
      cases h.2
    | false =>
      simp only [check, hc] at h
      obtain ⟨reply, rest, rfl, rfl, h⟩ := h
      simp only [checked] at h
      split at h
      · cases h
        exact .tracking _
      · split at h
        · cases h
        · cases h
          exact .tracking _

theorem ofServer_of_outcome {bs : List Batch} {b : Batch} {reply : Reply} {f : DriverFault} (hb : b ∈ bs)
    (h : outcome b reply = .error f) : f.OfServer bs := by
  cases reply with
  | error e =>
    cases h
    exact .send e
  | ok response =>
    simp only [outcome] at h
    split at h
    · cases h
    · cases h
      rw [DriverFault.ofCommit]
      split
      · rename_i hblame
        exact .migration hb hblame
      · exact .api _

/-- A commit that fails has been to the server, and what it blames is in its batches. -/
theorem ofServer_of_unlock {d d' : Driver} {s : Session} {log : List Turn} {f : DriverFault}
    (h : (unlock s d).Runs log (.error f, d')) : f.OfServer (d.commitBatches s) := by
  obtain ⟨d'', hcommit, -⟩ := runs_unlock_iff.1 h
  cases hs : s.isEmpty with
  | true =>
    rw [commit_of_isEmpty hs] at hcommit
    cases hcommit.2
  | false =>
    rcases runs_commit hs hcommit with ⟨e, hcheck, hr, -⟩ | ⟨look, sent, rfl, -, hsent, -⟩
    · cases hr
      exact (ofServer_of_check hcheck).mono (by simp)
    · rcases runs_sendBatches hsent with ⟨-, hok, -⟩ | ⟨-, turn, sent, b, rest, -, hbs, -, -, -, hr⟩
      · cases hok
      · exact ofServer_of_outcome (by simp [hbs]) hr.symm

theorem applyScanned_of_obstructed {d : Driver} (h : d.Obstructed t source target options) :
    ∃ f, f.IsLocal ∧ applyScanned t source target options d = .done (.error f, d) := by
  cases ends_applyScanned t source target options d with
  | @unplanned e hplan hend => exact ⟨.plan e, trivial, hend⟩
  | refused hplan hne hdry hlocked hend => exact ⟨.locked, trivial, hend⟩
  | unstaged hplan hne hdry hfree hstage hend =>
    exact ⟨_, (Session.ofStaging_of_stagePlan hstage).isLocal, hend⟩
  | idle hplan hnone hend =>
    -- nothing obstructs what is not to be done
    rcases h with hplan' | ⟨hplan', hne, hdry, -⟩ | ⟨hplan', hdry, hf, -⟩ <;>
      cases hplan.symm.trans hplan'
    · exact absurd hnone (by simp [hne, hdry])
    · obtain rfl := hnone.resolve_right (by simp [hdry])
      cases hskip : options.skipExecution <;> simp [Plan.executed, hskip] at hf
  | committed hplan hne hdry hfree hstage hend =>
    rcases h with hplan' | ⟨-, -, -, hlocked⟩ | ⟨hplan', -, hf, hunstageable⟩
    · cases hplan.symm.trans hplan'
    · exact absurd hlocked (by simp [hfree])
    · cases hplan.symm.trans hplan'
      -- staging succeeds only if every file stands for something
      obtain ⟨items, hitems⟩ := Session.exists_stagePlan_iff.1 ⟨_, hstage⟩ _ hf
      exact absurd (Session.fileItems_eq_some_iff.1 hitems)
        (MigrationFile.unstageable_iff.1 hunstageable items)

/-- Short of a commit, an application fails only if it is obstructed. -/
theorem obstructed_of_isLocal {d d' : Driver} {log : List Turn} {f : DriverFault}
    (h : (applyScanned t source target options d).Runs log (.error f, d')) (hf : f.IsLocal) :
    d.Obstructed t source target options := by
  cases ends_applyScanned t source target options d with
  | unplanned hplan hend => exact .plan hplan
  | idle hplan hnone hend =>
    rw [hend] at h
    cases h.2
  | refused hplan hne hdry hlocked hend => exact .locked hplan hne hdry hlocked
  | @unstaged plan e hplan hne hdry hfree hstage hend =>
    by_contra hclear
    have hall : ∀ f ∈ plan.executed options.skipExecution, ∃ items,
        (Session.start d.tracker.route d.skipConsistencyCheck).fileItems t source f = some items := by
      intro f hmem
      by_contra hno
      have hunstageable : f.Unstageable t source := by
        rw [MigrationFile.unstageable_iff (s := .start d.tracker.route d.skipConsistencyCheck)]
        exact fun items hitems => hno ⟨items, Session.fileItems_eq_some_iff.2 hitems⟩
      exact hclear (.file hplan hdry hmem hunstageable)
    obtain ⟨s, hok⟩ := Session.exists_stagePlan_iff.2 hall
    rw [hstage] at hok
    cases hok
  | committed hplan hne hdry hfree hstage hend =>
    rw [hend] at h
    obtain ⟨⟨r, d''⟩, first, rest, rfl, hunlock, -, hr⟩ := Exchange.runs_bind.1 h
    cases r with
    | ok u => cases hr
    | error e =>
      obtain rfl : e = f := by
        cases hr
        rfl
      exact absurd hf (ofServer_of_unlock hunlock).not_isLocal

/-- An application that fails without the server has sent its scan and is where this has left it, with
the lock as it was before; and whatever obstructs an application makes it fail so. -/
theorem apply_fails_locally {d : Driver} (hd : d.Reachable) :
    (∀ log f d', (apply t source target options d).Runs log (.error f, d') → f.IsLocal →
      log.map Turn.request = [d.scanRequest] ∧ (scan d).Runs log (.ok (), d') ∧
        d'.Obstructed t source target options ∧ d'.tracker.Settled ∧ d'.locked = d.locked) ∧
    ∀ look d₁, (scan d).Runs look (.ok (), d₁) → d₁.Obstructed t source target options →
      ∃ f, f.IsLocal ∧ ∀ log r, (apply t source target options d).Runs (look ++ log) r ↔
        log = [] ∧ r = (.error f, d₁) := by
  constructor
  · intro log f d' h hf
    have hsettled : d'.tracker.Settled := (Reachable.apply hd h).settled
    rw [apply_eq, Action.bind_apply] at h
    obtain ⟨⟨r, d₁⟩, look, rest, rfl, hscan, hrest⟩ := Exchange.runs_bind.1 h
    obtain ⟨hrequest, hlocked, hserver⟩ := runs_scan hscan
    cases r with
    | error e =>
      cases hrest.2
      exact absurd hf (hserver f rfl).not_isLocal
    | ok u =>
      have hobstructed := obstructed_of_isLocal hrest hf
      obtain ⟨f', -, heq⟩ := applyScanned_of_obstructed hobstructed
      rw [heq] at hrest
      obtain ⟨rfl, hend⟩ := hrest
      cases hend
      rw [List.append_nil]
      exact ⟨hrequest, hscan, hobstructed, hsettled, hlocked⟩
  · intro look d₁ hscan hobstructed
    obtain ⟨f, hf, heq⟩ := applyScanned_of_obstructed hobstructed
    refine ⟨f, hf, fun log r => ?_⟩
    rw [runs_apply_of_scan hscan, heq, Exchange.runs_done, eq_comm (a := r)]

/-- The files of the users with bytes in the last one that are no text. -/
def brokenTree : FileTree :=
  usersTree.set ["migrations", "2_later.up.sql"] (.file ⟨#[0xff]⟩)

/-- Two files are staged before the one that is no text is read, and nothing of them is sent. -/
theorem apply_fails_locally_broken : ∃ f log, f.IsLocal ∧
    log.map Turn.request = [onNoLedger.scanRequest] ∧ (scan onNoLedger).Runs log (.ok (), onNoLedger) ∧
    (apply brokenTree usersSource (.up none) ⟨false, false⟩ onNoLedger).Runs log
      (.error f, onNoLedger) := by
  obtain ⟨hlocal, hends⟩ := @apply_fails_locally brokenTree usersSource (.up none) ⟨false, false⟩
    onNoLedger reachable_onNoLedger
  have hplan : Plan.build usersSource onNoLedger.applied (.up none) = .ok usersPlan := by decide
  have hread : usersSource.read brokenTree laterSql = .error (.files .notText) := by decide +kernel
  have hrun : laterSql ∈ usersPlan.executed false := by decide
  obtain ⟨f, hf, hgo⟩ := hends _ _ runs_scan_onNoLedger (.file hplan rfl hrun (.inl ⟨_, hread⟩))
  have hfails := (hgo [] _).2 ⟨rfl, rfl⟩
  obtain ⟨hrequest, hscan, -, -, -⟩ := hlocal _ f _ hfails hf
  exact ⟨f, _, hf, hrequest, hscan, hfails⟩

end Driver

end EngineMigrate
