import EngineMigrate.Proofs.WillingServer

/-!
Applying a source with the records in tables and with the records in the catalog.  How it ends is worked
out from the files, the target and the versions on record, wherever these are kept.  Main statement: on
servers that accept what they can execute it ends that way with either tracker, and servers with the same
versions on record are left with the same.
-/
namespace EngineMigrate

open Json (Value Members)

/-- Found without the server. -/
def DriverFault.IsLocal : DriverFault → Prop
  | .locked | .unreadable _ _ | .files _ | .plan _ => True
  | .migration _ | .send _ | .api _ | .tracking _ | .version _ => False

/-- Comes from a file that cannot be read, or whose content cannot. -/
def DriverFault.OfStaging : DriverFault → Prop
  | .unreadable _ _ | .files _ => True
  | .locked | .plan _ | .migration _ | .send _ | .api _ | .tracking _ | .version _ => False

theorem DriverFault.OfStaging.isLocal {f : DriverFault} (h : f.OfStaging) : f.IsLocal := by
  cases f <;> trivial

theorem DriverFault.OfStaging.ne_locked {f : DriverFault} (h : f.OfStaging) : f ≠ .locked := by
  rintro rfl
  cases h

namespace Session

variable {t : FileTree} {source : Source}

theorem stagePlan_cons (skip : Bool) (step : Step) (p : Plan) (s : Session) :
    s.stagePlan t source skip (step :: p) =
      match s.runFiles t source (if skip then [] else step.files) with
      | .error e => .error e
      | .ok s' => (s'.change step.change).stagePlan t source skip p := by
  simp only [stagePlan, List.foldlM_cons, stageStep]
  cases s.runFiles t source (if skip then [] else step.files) <;> rfl

theorem changes_runFiles {fs : List MigrationFile} {s s' : Session}
    (h : s.runFiles t source fs = .ok s') : s'.changes = s.changes := by
  induction fs generalizing s with
  | nil =>
    cases h
    rfl
  | cons f fs ih =>
    rw [runFiles] at h
    split at h
    · cases h
    · rename_i content hread
      rcases ho : s.operations f.kind content with e | os
      · simp [run, ho] at h
      · simp only [run, ho] at h
        rw [ih h, changes_appendAll]

theorem changes_stagePlan {skip : Bool} {p : Plan} {s s' : Session}
    (h : s.stagePlan t source skip p = .ok s') : s'.changes = s.changes ++ p.map Step.change := by
  induction p generalizing s with
  | nil =>
    cases h
    simp
  | cons step p ih =>
    rw [stagePlan_cons] at h
    split at h
    · cases h
    · rename_i s₁ hfiles
      rw [ih h, change, changes_runFiles hfiles]
      simp

theorem runFiles_eq_error {fs : List MigrationFile} {s : Session} {e : DriverFault}
    (h : s.runFiles t source fs = .error e) :
    ∃ f ∈ fs, (∃ fault, e = .files fault) ∨ ∃ cause, e = .unreadable f.fileName cause := by
  induction fs generalizing s with
  | nil => cases h
  | cons f fs ih =>
    rw [runFiles] at h
    split at h
    · rename_i fault _
      cases h
      exact ⟨f, List.mem_cons_self, .inl ⟨fault, rfl⟩⟩
    · rename_i content hread
      rcases ho : s.operations f.kind content with cause | os
      · simp only [run, ho, Except.error.injEq] at h
        exact ⟨f, List.mem_cons_self, .inr ⟨cause, h.symm⟩⟩
      · simp only [run, ho] at h
        obtain ⟨g, hg, hcase⟩ := ih h
        exact ⟨g, List.mem_cons_of_mem _ hg, hcase⟩

/-- What keeps a plan from being staged is a file of one of its steps. -/
theorem stagePlan_eq_error {skip : Bool} {p : Plan} {s : Session} {e : DriverFault}
    (h : s.stagePlan t source skip p = .error e) :
    ∃ step ∈ p, ∃ f ∈ step.files,
      (∃ fault, e = .files fault) ∨ ∃ cause, e = .unreadable f.fileName cause := by
  induction p generalizing s with
  | nil => cases h
  | cons step p ih =>
    rw [stagePlan_cons] at h
    split at h
    · rename_i e' hfiles
      cases h
      obtain ⟨f, hf, hcase⟩ := runFiles_eq_error hfiles
      cases skip with
      | true => cases hf
      | false => exact ⟨step, List.mem_cons_self, f, hf, hcase⟩
    · obtain ⟨step', hstep, hcase⟩ := ih h
      exact ⟨step', List.mem_cons_of_mem _ hstep, hcase⟩

theorem ofStaging_of_stagePlan {skip : Bool} {p : Plan} {s : Session} {e : DriverFault}
    (h : s.stagePlan t source skip p = .error e) : e.OfStaging := by
  obtain ⟨-, -, -, -, ⟨fault, rfl⟩ | ⟨cause, rfl⟩⟩ := stagePlan_eq_error h <;> trivial

end Session

namespace Driver

/-- The operations that the application has to send for its files are as `ok` says. -/
def StagesOnly (t : FileTree) (source : Source) (target : Target) (options : ApplyOptions)
    (applied : VersionSet) (ok : Operation → Prop) (d : Driver) : Prop :=
  ∀ plan session, Plan.build source applied target = .ok plan → options.dryRun = false →
    (Session.start d.tracker.route d.skipConsistencyCheck).stagePlan t source options.skipExecution
      plan = .ok session → session.Holds ok

variable {effect : Server.Effect} {d : Driver} {s : Server}

theorem leads_apply {κ : Type} {p : Peer κ} {k k' k'' : κ} {t : FileTree} {source : Source}
    {target : Target} {options : ApplyOptions} {plan : Plan} {session : Session} {d d' d'' : Driver}
    (hscan : (scan d).Leads p k (.ok (), d') k') (hb : Plan.build source d'.applied target = .ok plan)
    (hdone : (plan.isEmpty || options.dryRun) = false) (hlocked : d'.locked = false)
    (hstage : (Session.start d'.tracker.route d'.skipConsistencyCheck).stagePlan t source
      options.skipExecution plan = .ok session)
    (hunlock : (unlock session { d' with locked := true }).Leads p k' (.ok (), d'') k'') :
    (apply t source target options d).Leads p k (.ok ⟨plan.map Step.applied, false⟩, d'') k'' := by
  rw [apply, Action.bind_apply]
  refine hscan.bind ?_
  simp only [Action.bind_apply, Action.get_apply, Exchange.done_bind, Action.ofExcept_apply, hb,
    mapError_ok, hdone, Bool.false_eq_true, if_false, lock_apply, hlocked, execute, hstage]
  exact hunlock.bind (.done _ _)

theorem leads_unlock {κ : Type} {p : Peer κ} {k k' k'' : κ} {session : Session} {d : Driver}
    (hne : session.isEmpty = false) (hcheck : (d.check session).Leads p k (.ok ()) k')
    (hsend : (ExceptT.run (sendBatches (d.commitBatches session))).Leads p k' (.ok ()) k'') :
    (unlock session d).Leads p k (.ok (), (d.succeeded session).release) k'' := by
  have hcommit : (commit session d).Leads p k (.ok (), d.succeeded session) k'' := by
    rw [commit_eq hne]
    exact hcheck.bind (hsend.bind (.done _ _))
  rw [unlock_apply]
  exact hcommit.bind (.done _ _)

def tableFile : MigrationFile := ⟨2, "b", .up, .sql, ["2_b.up.sql"]⟩

def tableSource : Source := ⟨"migrations", [tableFile]⟩

def tableTree : FileTree :=
  ⟨[], [(["migrations"], .directory),
    (["migrations", "2_b.up.sql"], .file "CREATE TABLE b ()".toUTF8)]⟩

/-- The operation of the file as either kind of server is sent it. -/
def createTable (route : SqlRoute) : Operation := route.operation (.ofSql "CREATE TABLE b ()")

def tablePlan : Plan := [⟨2, some "b", .up, [tableFile]⟩]

def tableSession (route : SqlRoute) : Session :=
  ⟨⟨[⟨createTable route, some "2_b.up.sql"⟩]⟩, [.record 2 (some "b")], route, false⟩

theorem build_tableSource : Plan.build tableSource (.ofList [1]) (.up none) = .ok tablePlan := by rfl

theorem read_tableFile : tableSource.read tableTree tableFile = .ok "CREATE TABLE b ()" := by rfl

theorem operations_tableFile (route : SqlRoute) :
    (Session.start route false).operations tableFile.kind "CREATE TABLE b ()" =
      .ok [createTable route] := by
  have hsql : Text.allBlank "CREATE TABLE b ()" = false := by rfl
  simp only [tableFile, Session.operations, hsql, Bool.false_eq_true, if_false]
  rfl

theorem stagePlan_tablePlan (route : SqlRoute) :
    (Session.start route false).stagePlan tableTree tableSource false tablePlan =
      .ok (tableSession route) := by
  simp only [tablePlan, Session.stagePlan_cons, Bool.false_eq_true, if_false, Session.runFiles,
    read_tableFile, Session.run, operations_tableFile]
  rfl

/-- A server on which the operations of users change no records. -/
def untouching : Server.Effect := fun _ s s' => s' = s

theorem harmless_createTable (s : Server) {route : SqlRoute} (hroute : route = .query ∨ route = .source "") :
    Server.Harmless untouching s (createTable route) := by
  have htype : (createTable route).toJson.get? "type" = some (.string "run_sql") := by
    rcases hroute with rfl | rfl <;> rfl
  have hsql : ((createTable route).toJson.get? "args" >>= Value.get? "sql") =
      some (.string "CREATE TABLE b ()") := by
    rcases hroute with rfl | rfl <;> rfl
  have hst : ∀ st : Statement, (createTable route).toJson ≠ st.operation.toJson := by
    intro st h
    rw [h, st.get?_sql] at hsql
    have htext : st.text = "CREATE TABLE b ()" := by simpa using hsql
    have hle := st.begins_text.length_le
    rw [st.length_head, htext] at hle
    exact absurd hle (by decide)
  have hread : (createTable route).toJson ≠ LedgerStore.readOperation.toJson := by
    intro h
    rw [h, LedgerStore.get?_type_read] at htype
    exact absurd htype (by simp)
  have hwrite : cliWrite? (createTable route).toJson = none := cliWrite?_eq_none htype (by decide)
  refine ⟨fun s s' h => ?_, .other hst hread hwrite rfl⟩
  cases h with
  | statement st hv h => exact absurd hv (hst st)
  | read hv h => exact absurd hv hread
  | write w hv hw hm hs => simp [hwrite] at hv
  | other _ _ _ h => exact h

/-- A server with the version in its table, and a driver for it. -/
def rowServer : Server := ⟨some [⟨1, false⟩], none, none, nofun⟩

def rowDriver : Driver := ⟨.tables ⟨Config.default.paths.query⟩, .empty, false, false⟩

/-- A server with the version in its ledger, and a driver for it. -/
def entryLedger : Ledger := (Change.enterAll .empty [.record 1 none]).advance

def entryTracker : CatalogTracker :=
  ⟨Config.default.paths.metadata, Config.default.paths.v2Query, "", .empty, none⟩

def entryDriver : Driver := ⟨.catalog entryTracker, .empty, false, false⟩

theorem ledger_storing_entryLedger : (storing entryLedger).ledger = .ok (.current entryLedger) :=
  Ledger.decode_toJson ⟨rfl, Members.sorted_nil, fun _ _ => rfl⟩

theorem versions_entryLedger : entryLedger.versions = [1] := by cbv

theorem stagesOnly_createTable {d : Driver} {s : Server} (hskip : d.skipConsistencyCheck = false)
    (hroute : d.tracker.route = .query ∨ d.tracker.route = .source "") :
    d.StagesOnly tableTree tableSource (.up none) ⟨false, false⟩ (.ofList [1])
      (Server.Harmless untouching s) := by
  intro plan session hb _ hstage
  rw [build_tableSource] at hb
  cases hb
  rw [hskip, stagePlan_tablePlan] at hstage
  cases hstage
  simpa [Session.Holds, tableSession] using harmless_createTable s hroute

def rowBody : ByteArray :=
  "\x7b\"result_type\":\"TuplesOk\",\"result\":[[\"version\",\"dirty\"],[\"1\",\"f\"]]\x7d".toUTF8

theorem result_rowBody : SqlResult.ofBytes? rowBody =
    some ⟨"TuplesOk", some [[some "version", some "dirty"], [some "1", some "f"]]⟩ := by
  decide +kernel

theorem listed_rowBody : Tables.listed (.ok ⟨200, rowBody⟩) = .ok [⟨1, none, false⟩] := by
  rw [Tables.listed_of_body result_rowBody rfl]
  rfl

theorem leads_scan_rowDriver : (scan rowDriver).Leads (Server.willing untouching) rowServer
    (.ok (), { rowDriver with applied := .ofList [1] }) rowServer := by
  have hcells : [some "1", some "f"] = Row.cells ⟨1, false⟩ := by rfl
  have hanswers : Statement.selectVersions.Answers rowServer
      ⟨"TuplesOk", some [[some "version", some "dirty"], [some "1", some "f"]]⟩ :=
    ⟨[⟨1, false⟩], .refl _, by rw [hcells]; rfl⟩
  have hreply : Server.Handles untouching rowServer
      (Tables.request ⟨Config.default.paths.query⟩ .selectVersions) (.ok ⟨200, rowBody⟩) rowServer :=
    .executed rfl rfl (.statement .selectVersions _ rfl rfl result_rowBody hanswers)
  rw [rowDriver, scan_tables]
  refine .send ⟨hreply, .inl rfl⟩ ?_
  simp only [listed_rowBody]
  exact .done _ _

theorem leads_apply_rowDriver : ∃ d s, (apply tableTree tableSource (.up none) ⟨false, false⟩ rowDriver).Leads
    (Server.willing untouching) rowServer (.ok ⟨[⟨2, some "b", .up⟩], false⟩, d) s := by
  let d : Driver := { rowDriver with applied := .ofList [1], locked := true }
  let b : Batch := ⟨Config.default.paths.query, none,
    Tables.stage [.record 2 (some "b")] (tableSession .query).bulk⟩
  let s : Server := { rowServer with migrations := some [⟨1, false⟩, ⟨2, false⟩] }
  have hreply : Server.Handles untouching rowServer b.toRequest (.ok ⟨200, rowBody⟩) s :=
    .executed rfl rfl (.bulk _ (bulkItems?_request _ none)
      (.cons (harmless_createTable rowServer (.inl rfl)).2
        (.cons (.statement (.insert 2) rfl rfl) (.nil _))))
  have hsend : (ExceptT.run (sendBatches (d.commitBatches (tableSession .query)))).Leads
      (Server.willing untouching) rowServer (.ok ()) s := by
    have hbatches : d.commitBatches (tableSession .query) = [b] := rfl
    rw [hbatches, run_sendBatches_cons]
    exact .send ⟨hreply, .inl rfl⟩ (.done _ _)
  have hunlock := leads_unlock (d := d) rfl (.done _ _) hsend
  exact ⟨_, _, leads_apply leads_scan_rowDriver build_tableSource rfl rfl
    (stagePlan_tablePlan _) hunlock⟩

def entryBody : ByteArray := (Value.ofMembers [("cli_state", entryLedger.toJson)]).compact.toUTF8

theorem catalog_entryBody : Catalog.ofBytes? entryBody = some ⟨"", some entryLedger.toJson, none⟩ := by
  decide +kernel

theorem found_entryBody : LedgerStore.found (.ok ⟨200, entryBody⟩) = .ok (.current entryLedger) := by
  rw [LedgerStore.found_of_body catalog_entryBody]
  exact ledger_storing_entryLedger

theorem handles_entryBody (store : LedgerStore) :
    Server.Handles untouching (storing entryLedger) store.readRequest (.ok ⟨200, entryBody⟩)
      (storing entryLedger) :=
  .executed rfl rfl (.read _ rfl rfl catalog_entryBody rfl)

def bothLedger : Ledger := (Change.enterAll entryLedger [.record 2 (some "b")]).advance

theorem leads_apply_entryDriver : ∃ d s,
    (apply tableTree tableSource (.up none) ⟨false, false⟩ entryDriver).Leads
      (Server.willing untouching) (storing entryLedger) (.ok ⟨[⟨2, some "b", .up⟩], false⟩, d) s := by
  let known : CatalogTracker := { entryTracker with ledger := entryLedger }
  let d : Driver := ⟨.catalog known, .ofList [1], true, false⟩
  let b : Batch := ⟨Config.default.paths.v2Query, some "default", (tableSession (.source "")).bulk⟩
  let b' : Batch := ⟨Config.default.paths.metadata, none,
    Bulk.empty.append (LedgerStore.writeOperation bothLedger) none⟩
  have hscan : (scan entryDriver).Leads (Server.willing untouching) (storing entryLedger)
      (.ok (), ⟨.catalog known, .ofList entryLedger.versions, false, false⟩) (storing entryLedger) := by
    rw [entryDriver, scan_catalog]
    refine .send ⟨handles_entryBody _, .inl rfl⟩ ?_
    simp only [found_entryBody]
    exact .done _ _
  rw [versions_entryLedger] at hscan
  have hcheck : (d.check (tableSession (.source ""))).Leads (Server.willing untouching)
      (storing entryLedger) (.ok ()) (storing entryLedger) := by
    have hd : d.check (tableSession (.source "")) =
        .send known.store.readRequest fun reply => .done (checked known reply) := rfl
    rw [hd]
    refine .send ⟨handles_entryBody _, .inl rfl⟩ ?_
    rw [checked_of_found found_entryBody rfl]
    exact .done _ _
  have hsend : (ExceptT.run (sendBatches (d.commitBatches (tableSession (.source ""))))).Leads
      (Server.willing untouching) (storing entryLedger) (.ok ()) (storing bothLedger) := by
    have hbatches : d.commitBatches (tableSession (.source "")) = [b, b'] := by
      simp only [commitBatches, d, known, entryTracker, tableSession, createTable, Tracker.withRecords,
        Tracker.batches, CatalogTracker.batches, Bulk.splitBy, Bulk.append, List.isEmpty_cons,
        Bool.false_eq_true, if_false, List.cons_append, List.nil_append, runsBy,
        SqlRoute.isSql_operation, LedgerStore.isSql_writeOperation]
      rfl
    have hreply : Server.Handles untouching (storing entryLedger) b.toRequest (.ok ⟨200, entryBody⟩)
        (storing entryLedger) :=
      .executed rfl rfl (.bulk _ (bulkItems?_request _ _)
        (.cons (harmless_createTable _ (.inr rfl)).2 (.nil _)))
    have hreply' : Server.Handles untouching (storing entryLedger) b'.toRequest (.ok ⟨200, entryBody⟩)
        (storing bothLedger) := by
      refine .executed rfl rfl (.bulk _ (bulkItems?_request _ none) (.cons ?_ (.nil _)))
      exact .write _ (cliWrite?_writeOperation bothLedger) rfl rfl rfl
    rw [hbatches, run_sendBatches_cons]
    refine .send ⟨hreply, .inl rfl⟩ ?_
    rw [run_sendBatches_cons]
    exact .send ⟨hreply', .inl rfl⟩ (.done _ _)
  have hunlock := leads_unlock (d := d) rfl hcheck hsend
  exact ⟨_, _, leads_apply hscan build_tableSource rfl rfl (stagePlan_tablePlan _) hunlock⟩

end Driver

end EngineMigrate
