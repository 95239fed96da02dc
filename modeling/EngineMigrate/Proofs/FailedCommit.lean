import EngineMigrate.Proofs.Desk

/-!
Commits that fail.  Main statement: the batches that the server accepted are the first ones, nothing
follows a refusal, no record was written, and the driver is as if the session had been given up.
-/
namespace EngineMigrate

namespace Driver

/-- A commit that broke off: the look at the ledger, the batches that were accepted, and the batch that
was refused, if it came to that. -/
structure BrokeOff (d : Driver) (s : Session) (check accepted rejected : List Turn) : Prop where
  check_requests : check.map Turn.request = d.checkRequests s
  isAccepted : ∀ t ∈ accepted, t.isAccepted = true
  accepted_lt : accepted.length < (d.commitBatches s).length
  accepted_requests :
    accepted.map Turn.request = ((d.commitBatches s).take accepted.length).map Batch.toRequest
  rejected_requests : (accepted = [] ∧ rejected = []) ∨ ∃ t b, rejected = [t] ∧ t.isAccepted = false ∧
    (d.commitBatches s)[accepted.length]? = some b ∧ t.request = b.toRequest
  /-- What the server has executed are operations of the session; no record is among them. -/
  unrecorded :
    ((d.commitBatches s).take accepted.length).flatMap (fun b => b.bulk.items) <+: s.bulk.items

theorem always_sendBatches_log (bs : List Batch) (check : List Turn) :
    (ExceptT.run (sendBatches bs)).Always .log (fun r log => ∀ e, r = .error e →
      ∃ accepted t b, log = check ++ accepted ++ [t] ∧ (∀ u ∈ accepted, u.isAccepted = true) ∧
        accepted.map Turn.request = (bs.take accepted.length).map Batch.toRequest ∧
        t.isAccepted = false ∧ bs[accepted.length]? = some b ∧ t.request = b.toRequest) check := by
  refine always_sendBatches (I := fun sent rest log => sent ++ rest = bs ∧ ∃ accepted,
    log = check ++ accepted ∧ (∀ u ∈ accepted, u.isAccepted = true) ∧
      accepted.map Turn.request = sent.map Batch.toRequest) ?_ ?_ ⟨rfl, [], by simp⟩
  · intro sent log h e he
    cases he
  · intro sent b rest log hinv
    obtain ⟨rfl, accepted, rfl, hall, hreq⟩ := hinv
    refine ⟨trivial, fun reply log' hlog => ?_⟩
    have hlength : accepted.length = sent.length := by simpa using congrArg List.length hreq
    subst hlog
    constructor
    · intro hs
      refine ⟨by simp, accepted ++ [⟨b.toRequest, reply⟩], by simp, ?_, by simp [hreq]⟩
      intro u hu
      rcases List.mem_append.1 hu with hu | hu
      · exact hall u hu
      · rw [List.mem_singleton.1 hu]
        exact hs
    · intro hs e e' _
      refine ⟨accepted, ⟨b.toRequest, reply⟩, b, rfl, hall, ?_, hs, ?_, rfl⟩
      · simp [hreq, hlength]
      · simp [hlength]

theorem always_check_log (d : Driver) (s : Session) :
    (d.check s).Always .log (fun _ log => log.map Turn.request = d.checkRequests s) [] := by
  obtain ⟨tracker, applied, locked, skip⟩ := d
  cases tracker with
  | tables t => rfl
  | catalog t =>
    cases hc : s.changes.isEmpty with
    | true => simp [check, checkRequests, hc]
    | false =>
      simp only [check, checkRequests, hc]
      refine ⟨trivial, fun reply log hlog => ?_⟩
      rw [hlog]
      rfl

/-- After a commit that failed: of its batches the server has executed the first ones and no record, and
the driver is as if the session had been given up. -/
theorem unlock_error {d d' : Driver} {s : Session} {log : List Turn} {f : DriverFault}
    (hd : d.Reachable) (hs : s.isEmpty = false) (h : (unlock s d).Runs log (.error f, d')) :
    (∃ check accepted rejected, log = check ++ accepted ++ rejected ∧
      d.BrokeOff s check accepted rejected) ∧
    d'.applied = d.applied ∧ d'.tracker = d.tracker ∧ d'.tracker.Settled ∧ d'.locked = false ∧
    ∀ later : Session, unlock later d' = unlock later d.release := by
  have hall : (unlock s d).Always .log (fun r log => ∀ f, r.1 = .error f →
      r.2 = d.afterAbort.release ∧ ∃ check accepted rejected,
        log = check ++ accepted ++ rejected ∧ d.BrokeOff s check accepted rejected) [] := by
    rw [unlock_apply, commit_eq hs, Exchange.always_bind]
    apply (always_check_log d s).bind
    intro r check hcheck
    have hpos := List.length_pos_iff.2 (commitBatches_ne_nil (d := d) hs)
    cases r with
    | error e =>
      intro f _
      refine ⟨rfl, check, [], [], by simp, hcheck, by simp, hpos, rfl, .inl ⟨rfl, rfl⟩, ?_⟩
      simp
    | ok u =>
      apply (always_sendBatches_log (d.commitBatches s) check).bind
      intro r log hr
      cases r with
      | ok u =>
        intro f hf
        cases hf
      | error e =>
        intro f _
        obtain ⟨accepted, t, b, hlog, hacc, hreq, ht, hb, htb⟩ := hr e rfl
        have hlt := (List.getElem?_eq_some_iff.1 hb).1
        exact ⟨rfl, check, accepted, [t], hlog, hcheck, hacc, hlt, hreq,
          .inr ⟨t, b, rfl, ht, hb, htb⟩, items_take_commitBatches hlt⟩
  obtain ⟨rfl, hbroke⟩ := hall.of_runs h f rfl
  have habort : d.afterAbort = d := by
    obtain ⟨tracker, applied, locked, skip⟩ := d
    exact congrArg (Driver.mk · applied locked skip) hd.settled
  rw [habort]
  exact ⟨hbroke, rfl, rfl, hd.settled, rfl, fun later => rfl⟩

def noLedger : Reply := .ok ⟨200, "\x7b\x7d".toUTF8⟩

/-- A driver that was attached to a server whose catalog holds no ledger. -/
def onNoLedger : Driver := ⟨.ofCapability .default .datasources, .empty, false, false⟩

def oneMigration : Session where
  bulk := ⟨[⟨(SqlRoute.source "").operation (.ofSql "CREATE TABLE t ()"), some "1_t.up.sql"⟩]⟩
  changes := [.record 1 none]
  route := .source ""
  skipConsistencyCheck := false

theorem found_noLedger : LedgerStore.found noLedger = .ok (.legacy .empty) := by
  have h : Catalog.ofBytes? "\x7b\x7d".toUTF8 = some ⟨"", none, none⟩ := by decide +kernel
  rw [noLedger, LedgerStore.found_of_body h]
  rfl

theorem runs_attach_onNoLedger :
    (ExceptT.run (attach (.ofCapability .default .datasources) false)).Runs
      [⟨LedgerStore.readRequest ⟨Config.default.paths.metadata⟩, noLedger⟩,
        ⟨LedgerStore.readRequest ⟨Config.default.paths.metadata⟩, noLedger⟩,
        ⟨LedgerStore.writeRequest ⟨Config.default.paths.metadata⟩ Ledger.empty.advance, noLedger⟩,
        ⟨LedgerStore.readRequest ⟨Config.default.paths.metadata⟩, noLedger⟩] (.ok onNoLedger) := by
  have hw : LedgerStore.written noLedger = .ok () := rfl
  simp only [attach, start, Tracker.prepare, Tracker.ofCapability, Action.bind_apply, track_catalog]
  simp only [CatalogTracker.prepare_apply, CatalogTracker.ask_writeChecked_apply, Exchange.send_bind]
  refine .cons ?_
  simp only [found_noLedger, StoredLedger.needsUpgrade, if_true, Exchange.send_bind]
  refine .cons ?_
  simp only [found_noLedger, StoredLedger.revision_upgrade, if_true, Exchange.send_bind]
  refine .cons ?_
  simp only [hw, mapError_ok, Exchange.done_bind, scan_catalog, Exchange.send_bind]
  refine .cons ?_
  simp only [found_noLedger]
  exact ⟨rfl, rfl⟩

theorem reachable_onNoLedger : onNoLedger.Reachable := .attach runs_attach_onNoLedger

def oneMigrationBatches : List Batch :=
  [⟨Config.default.paths.v2Query, some "default", oneMigration.bulk⟩,
    ⟨Config.default.paths.metadata, none,
      Bulk.empty.append (LedgerStore.writeOperation (Change.enterAll .empty [.record 1 none]).advance) none⟩]

theorem commitBatches_oneMigration : onNoLedger.commitBatches oneMigration = oneMigrationBatches := by
  simp only [commitBatches, onNoLedger, oneMigration, Tracker.ofCapability, Tracker.withRecords,
    Tracker.batches, CatalogTracker.batches, Bulk.splitBy, Bulk.append, List.isEmpty_cons,
    Bool.false_eq_true, if_false, List.cons_append, List.nil_append, runsBy,
    SqlRoute.isSql_operation, LedgerStore.isSql_writeOperation]
  rfl

/-- A commit of that session whose record gets no reply. -/
def recordUnanswered : List Turn :=
  ⟨LedgerStore.readRequest ⟨Config.default.paths.metadata⟩, noLedger⟩ ::
    (oneMigrationBatches.zip [noLedger, .error .connection]).map fun t => ⟨t.1.toRequest, t.2⟩

theorem runs_recordUnanswered :
    (unlock oneMigration onNoLedger).Runs recordUnanswered (.error (.send .connection), onNoLedger) := by
  have hcheck : onNoLedger.check oneMigration =
      .send (LedgerStore.readRequest ⟨Config.default.paths.metadata⟩)
        fun reply => .done (checked ⟨_, _, _, .empty, none⟩ reply) := rfl
  simp only [unlock_apply, commit_eq (s := oneMigration) rfl, hcheck, commitBatches_oneMigration,
    oneMigrationBatches, run_sendBatches_cons, Exchange.send_bind, Exchange.done_bind]
  refine .cons ?_
  rw [checked_of_found found_noLedger rfl]
  refine .cons ?_
  refine .cons ?_
  exact ⟨rfl, rfl⟩

theorem unlock_error_recordUnanswered :
    onNoLedger.Reachable ∧ oneMigration.isEmpty = false ∧
      (unlock oneMigration onNoLedger).Runs recordUnanswered (.error (.send .connection), onNoLedger) ∧
      ∃ check accepted rejected, recordUnanswered = check ++ accepted ++ rejected ∧
        onNoLedger.BrokeOff oneMigration check accepted rejected :=
  ⟨reachable_onNoLedger, rfl, runs_recordUnanswered,
    (unlock_error reachable_onNoLedger rfl runs_recordUnanswered).1⟩

end Driver

end EngineMigrate
