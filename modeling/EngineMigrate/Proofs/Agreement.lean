import EngineMigrate.Proofs.Desk
import EngineMigrate.Proofs.ServerRecords

/-!
A driver whose server nobody else writes.  Main statement: after every call, whatever was refused on the
way, the applied versions of the driver are the versions that the server has on record.
-/
namespace EngineMigrate

open Json (Value Members)

/-- The tracker keeps the ledger that is stored, or one with the same versions. -/
structure CatalogTracker.Reflects (t : CatalogTracker) (applied : VersionSet) (s : Server) : Prop where
  idle : t.pending = none
  storable : t.ledger.Storable
  applied_iff : ∀ v, v ∈ t.ledger.versions ↔ v ∈ applied
  prepared : s.Prepared
  stored : ∃ st, s.ledger = .ok st ∧ ∀ v, v ∈ st.upgrade.versions ↔ v ∈ t.ledger.versions

namespace CatalogTracker

variable {t : CatalogTracker} {applied : VersionSet} {s : Server} {st : StoredLedger}

theorem reflects_of_read (hidle : t.pending = none) (hp : s.Prepared) (hst : s.ledger = .ok st) :
    Reflects { t with ledger := st.upgrade } (.ofList st.upgrade.versions) s where
  idle := hidle
  storable := hp.storable hst
  applied_iff _ := VersionSet.mem_ofList.symm
  prepared := hp
  stored := ⟨st, hst, fun _ => Iff.rfl⟩

theorem Reflects.reread (h : t.Reflects applied s) (hst : s.ledger = .ok st) :
    Reflects { t with ledger := st.upgrade } applied s where
  idle := h.idle
  storable := h.prepared.storable hst
  applied_iff v := by
    obtain ⟨st', hst', hv⟩ := h.stored
    rw [hst] at hst'
    cases hst'
    exact (hv v).trans (h.applied_iff v)
  prepared := h.prepared
  stored := ⟨st, hst, fun _ => Iff.rfl⟩

theorem reflects_of_write (hidle : t.pending = none) (hl : t.ledger.Storable)
    (happlied : ∀ v, v ∈ t.ledger.versions ↔ v ∈ applied)
    (hw : s.cliState = some t.ledger.toJson) : t.Reflects applied s where
  idle := hidle
  storable := hl
  applied_iff := happlied
  prepared := Server.prepared_of_write hw hl.sorted
  stored := by
    obtain ⟨st, hst, -, hv⟩ := hl.decode
    exact ⟨st, by rw [Server.ledger, hw, hst], hv⟩

/-- A checked write fails and leaves everything alone, or it puts the ledger there. -/
theorem always_writeChecked {effect : Server.Effect} {l : Ledger}
    {post : Except TrackingFault Unit × CatalogTracker → Server → Prop}
    (hfail : ∀ e, post (.error e, t) s)
    (hdone : ∀ s', s'.cliState = some l.advance.toJson → post (.ok (), { t with ledger := l.advance }) s') :
    ((ask (fun s => s.writeChecked l) >>= keep) t).Always (Server.peer effect) post s := by
  rw [ask_writeChecked_apply]
  apply Server.always_readRequest
  intro reply _
  cases LedgerStore.found reply with
  | error e => exact hfail _
  | ok st =>
    by_cases hrev : st.revision = l.revision
    · simp only [hrev, if_true]
      refine ⟨trivial, fun reply s'' hw => ?_⟩
      dsimp only
      rcases Server.handles_write hw with ⟨hacc, hstate, -⟩ | ⟨hrej, rfl⟩
      · rw [LedgerStore.written_eq_ok_iff.2 hacc]
        exact hdone s'' hstate
      · cases hwritten : LedgerStore.written reply with
        | ok u => exact absurd (LedgerStore.written_eq_ok_iff.1 hwritten) (by simp [hrej])
        | error e => exact hfail _
    · simp only [hrev, if_false]
      exact hfail _

theorem always_prepare {effect : Server.Effect} (hidle : t.pending = none) :
    (prepare t).Always (Server.peer effect)
      (fun r s' => r.1 = .ok () → r.2.pending = none ∧ s'.Prepared) s := by
  rw [prepare_apply]
  apply Server.always_readRequest
  intro reply hledger
  cases hst : LedgerStore.found reply with
  | error e => simp
  | ok st =>
    have hs := hledger st hst
    cases hu : st.needsUpgrade with
    | true =>
      simp only [hu, if_true]
      refine always_writeChecked (by simp) fun s'' hw _ => ⟨hidle, ?_⟩
      exact Server.prepared_of_write hw (Server.sorted_extra hs)
    | false =>
      simp only [hu, Bool.false_eq_true, if_false]
      exact fun _ => ⟨hidle, Server.prepared_of_current hs hu⟩

end CatalogTracker

namespace Driver

/-- The applied versions are the versions on record. -/
def Agrees (d : Driver) (s : Server) : Prop :=
  ∀ i : Int, (∃ v ∈ d.applied, (v : Int) = i) ↔ s.Records d.tracker i

/-- What every call leaves so. -/
def Reflects (d : Driver) (s : Server) : Prop :=
  match d.tracker with
  | .tables _ => d.Agrees s
  | .catalog t => t.Reflects d.applied s

theorem Reflects.agrees {d : Driver} {s : Server} (h : d.Reflects s) : d.Agrees s := by
  obtain ⟨tracker, applied, locked, skip⟩ := d
  cases tracker with
  | tables t => exact h
  | catalog t =>
    obtain ⟨st, hst, hv⟩ := CatalogTracker.Reflects.stored h
    have happlied := CatalogTracker.Reflects.applied_iff h
    intro i
    constructor
    · rintro ⟨v, hmem, rfl⟩
      exact ⟨st, hst, v, (hv v).2 ((happlied v).2 hmem), rfl⟩
    · rintro ⟨st', hst', v, hmem, rfl⟩
      rw [hst] at hst'
      cases hst'
      exact ⟨v, (happlied v).1 ((hv v).1 hmem), rfl⟩

variable {effect : Server.Effect}

theorem reflects_free (d : Driver) (b : Bool) (s : Server) (h : d.Reflects s) :
    Reflects { d with locked := b } s := h

def Ready (d : Driver) (s : Server) : Prop :=
  match d.tracker with
  | .tables _ => True
  | .catalog t => t.pending = none ∧ s.Prepared

theorem Reflects.ready {d : Driver} {s : Server} (h : d.Reflects s) : d.Ready s := by
  obtain ⟨tracker, applied, locked, skip⟩ := d
  cases tracker with
  | tables t => trivial
  | catalog t => exact ⟨CatalogTracker.Reflects.idle h, CatalogTracker.Reflects.prepared h⟩

theorem always_scan {d : Driver} {s : Server} (h : d.Ready s) :
    (scan d).Always (Server.peer effect) (fun r s' => s' = s ∧
      (∀ i, s.Records r.2.tracker i ↔ s.Records d.tracker i) ∧
      (r.1 ≠ .ok () ∧ r.2 = d ∨ r.1 = .ok () ∧ r.2.Reflects s)) s := by
  obtain ⟨tracker, applied, locked, skip⟩ := d
  cases tracker with
  | tables t =>
    rw [scan_tables]
    refine ⟨trivial, fun reply s' hr => ?_⟩
    obtain ⟨rfl, hrows⟩ := Server.handles_selectVersions hr
    dsimp only
    cases hes : Tables.listed reply with
    | error e => exact ⟨rfl, fun _ => Iff.rfl, .inl ⟨by simp, rfl⟩⟩
    | ok es =>
      refine ⟨rfl, fun _ => Iff.rfl, .inr ⟨rfl, fun i => ?_⟩⟩
      simp only [VersionSet.mem_ofList, List.mem_map, exists_exists_and_eq_and]
      exact hrows es hes i
  | catalog t =>
    rw [scan_catalog]
    apply Server.always_readRequest
    intro reply hledger
    dsimp only
    cases hst : LedgerStore.found reply with
    | error e => exact ⟨rfl, fun _ => Iff.rfl, .inl ⟨by simp, rfl⟩⟩
    | ok st =>
      exact ⟨rfl, fun _ => Iff.rfl, .inr ⟨rfl,
        CatalogTracker.reflects_of_read h.1 h.2 (hledger st hst)⟩⟩

theorem maintains_scan_reflects : Action.Maintains (Server.peer effect) Reflects scan := by
  intro d s h
  apply (always_scan h.ready).mono
  intro r s' hr
  obtain ⟨rfl, -, ⟨-, hd⟩ | ⟨-, hd⟩⟩ := hr
  · rw [hd]
    exact h
  · exact hd

theorem maintains_getSetting_reflects (name : String) :
    Action.Maintains (Server.peer effect) Reflects (getSetting name) := by
  intro d s h
  obtain ⟨tracker, applied, locked, skip⟩ := d
  cases tracker with
  | tables t =>
    rw [getSetting, Tracker.getSetting, track_tables, Tables.run_getSetting]
    cases Settings.defaultOf name with
    | error e => exact h
    | ok default =>
      refine ⟨trivial, fun reply s' hr => ?_⟩
      rcases Server.handles_statement hr with ⟨st, htext, he, -⟩ | ⟨rfl, -⟩
      · obtain ⟨other, rfl⟩ := Statement.eq_selectSetting htext
        obtain ⟨rows, -, rfl⟩ := Option.map_eq_some_iff.1 he
        exact h
      · exact h
  | catalog t =>
    rw [getSetting, Tracker.getSetting, track_catalog, CatalogTracker.getSetting_apply]
    cases Settings.defaultOf name with
    | error e => exact h
    | ok default =>
      apply Server.always_readRequest
      intro reply hledger
      dsimp only
      apply Exchange.always_bind.2
      cases hst : LedgerStore.found reply with
      | error e => exact h
      | ok st => exact CatalogTracker.Reflects.reread h (hledger st hst)

theorem maintains_updateSetting_reflects (name value : String) :
    Action.Maintains (Server.peer effect) Reflects (updateSetting name value) := by
  intro d s h
  obtain ⟨tracker, applied, locked, skip⟩ := d
  cases tracker with
  | tables t =>
    rw [updateSetting, Tracker.updateSetting, track_tables, Tables.run_updateSetting]
    cases Settings.defaultOf name with
    | error e => exact h
    | ok default =>
      refine ⟨trivial, fun reply s' hr => ?_⟩
      rcases Server.handles_statement hr with ⟨st, htext, he, -⟩ | ⟨rfl, -⟩
      · obtain ⟨n, v, rfl⟩ := Statement.eq_storeSetting htext
        obtain ⟨rows, -, rfl⟩ := Option.map_eq_some_iff.1 he
        exact h
      · exact h
  | catalog t =>
    rw [updateSetting, Tracker.updateSetting, track_catalog, CatalogTracker.updateSetting_apply]
    cases Settings.defaultOf name with
    | error e => exact h
    | ok default =>
      apply Server.always_readRequest
      intro reply hledger
      dsimp only
      apply Exchange.always_bind.2
      cases hst : LedgerStore.found reply with
      | error e => exact h
      | ok st =>
        have ht := CatalogTracker.Reflects.reread h (hledger st hst)
        have hl : Ledger.Storable { st.upgrade with settings := ⟨value⟩ } := ht.storable.congr rfl rfl
        refine CatalogTracker.always_writeChecked (fun e => ht) fun s'' hw => ?_
        exact CatalogTracker.reflects_of_write ht.idle (hl.congr rfl rfl) ht.applied_iff hw

def batchItems (bs : List Batch) : List Value :=
  ((bs.flatMap fun b => b.bulk.items).map Staged.operation).map Operation.toJson

theorem batchItems_concat (bs : List Batch) (b : Batch) :
    batchItems (bs ++ [b]) = batchItems bs ++ b.bulk.operations.map Operation.toJson := by
  simp [batchItems, Bulk.operations]

theorem always_sendBatches_server (bs : List Batch) (s : Server) :
    (ExceptT.run (sendBatches bs)).Always (Server.peer effect) (fun r s' =>
      match r with
      | .ok () => Server.ExecutesAll effect (batchItems bs) s s'
      | .error _ => ∃ n, n < bs.length ∧ Server.ExecutesAll effect (batchItems (bs.take n)) s s') s := by
  refine always_sendBatches (I := fun sent rest s' => sent ++ rest = bs ∧
    Server.ExecutesAll effect (batchItems sent) s s') ?_ ?_ ⟨rfl, .nil s⟩
  · intro sent s' hinv
    obtain ⟨hsent, h⟩ := hinv
    rw [List.append_nil] at hsent
    exact hsent ▸ h
  · intro sent b rest s' hinv
    obtain ⟨hsent, h⟩ := hinv
    refine ⟨trivial, fun reply s'' hr => ?_⟩
    rcases Server.handles_batch hr with ⟨hacc, hbatch⟩ | ⟨hrej, rfl⟩
    · refine ⟨fun _ => ⟨by simp [← hsent], ?_⟩, fun hrej => absurd hacc (by simp [hrej])⟩
      rw [batchItems_concat]
      exact h.append hbatch
    · refine ⟨fun hacc => absurd hacc (by simp [hrej]), fun _ e => ⟨sent.length, ?_, ?_⟩⟩
      · simp [← hsent]
      · simpa [← hsent] using h

theorem always_check_server (d : Driver) (session : Session) (s : Server) :
    (d.check session).Always (Server.peer effect) (fun _ s' => s' = s) s := by
  obtain ⟨tracker, applied, locked, skip⟩ := d
  cases tracker with
  | tables t => rfl
  | catalog t =>
    cases hc : session.changes.isEmpty with
    | true => simp [check, hc]
    | false =>
      simp only [check, hc]
      apply Server.always_readRequest
      intro reply _
      rfl

theorem Reflects.afterAbort {d : Driver} {s : Server} (h : d.Reflects s) : d.afterAbort = d := by
  obtain ⟨tracker, applied, locked, skip⟩ := d
  cases tracker with
  | tables t => rfl
  | catalog t =>
    have hidle := Tracker.settled_catalog_iff.2 (CatalogTracker.Reflects.idle h)
    exact congrArg (Driver.mk · applied locked skip) hidle

/-- The operations of a session that the server has executed have touched nothing. -/
theorem eq_of_executed_prefix {session : Session} (hs : session.Holds (Server.Untouched effect))
    {items : List Staged} (hp : items <+: session.bulk.items) {s s' : Server}
    (h : Server.ExecutesAll effect ((items.map Staged.operation).map Operation.toJson) s s') :
    s' = s := by
  refine h.eq_of_untouched fun o ho => ?_
  obtain ⟨x, hx, rfl⟩ := List.mem_map.1 ho
  exact hs x (hp.subset hx)

theorem executesAll_changes_of_commit {d : Driver} {session : Session} {t : Tables} {s s' : Server}
    (ht : d.tracker = .tables t) (hs : session.Holds (Server.Untouched effect))
    (he : Server.ExecutesAll effect (batchItems (d.commitBatches session)) s s') :
    Server.ExecutesAll effect
      (session.changes.map fun c => (Tables.operation (Tables.changeSql c)).toJson) s s' := by
  simp only [commitBatches, ht, Tracker.batches, Tracker.withRecords, batchItems, List.flatMap_cons,
    List.flatMap_nil, List.append_nil, Tables.items_stage, List.map_append, List.map_map] at he
  obtain ⟨mid, hsession, hchanges⟩ := Server.executesAll_append he
  rw [← List.map_map] at hsession
  obtain rfl := eq_of_executed_prefix hs (List.prefix_refl _) hsession
  exact hchanges

/-- The whole commit was executed, so the records on the server changed as the applied versions do. -/
theorem Reflects.succeeded {d : Driver} {session : Session} {s s' : Server} (h : d.Reflects s)
    (hs : session.Holds (Server.Untouched effect))
    (he : Server.ExecutesAll effect (batchItems (d.commitBatches session)) s s') :
    (d.succeeded session).Reflects s' := by
  obtain ⟨tracker, applied, locked, skip⟩ := d
  cases tracker with
  | tables t => exact Server.rows_of_changes (executesAll_changes_of_commit rfl hs he) h
  | catalog t =>
    simp only [commitBatches, Tracker.batches, batchItems, CatalogTracker.items_batches] at he
    cases hc : session.changes.isEmpty with
    | true =>
      simp only [Tracker.withRecords, hc, if_true] at he
      obtain rfl := eq_of_executed_prefix hs (List.prefix_refl _) he
      have hcommitted : t.committed = t := by
        have hidle := CatalogTracker.Reflects.idle h
        obtain ⟨metadataPath, queryPath, source, ledger, pending⟩ := t
        cases hidle
        rfl
      have hnil := List.isEmpty_iff.1 hc
      simp only [Driver.succeeded, Tracker.succeeded, hnil, List.isEmpty_nil, if_true, hcommitted]
      exact h
    | false =>
      simp only [Tracker.withRecords, hc, Bool.false_eq_true, if_false, Bulk.items_append,
        List.map_append] at he
      obtain ⟨mid, hsession, hwrite⟩ := Server.executesAll_append he
      obtain rfl := eq_of_executed_prefix hs (List.prefix_refl _) hsession
      obtain _ | ⟨hwrite, hrest⟩ := hwrite
      obtain _ | _ := hrest
      have hstate := (Server.executes_write hwrite).1
      obtain ⟨hversion, hextra⟩ := t.ledger.enterAll_version_extra session.changes
      simp only [Driver.succeeded, Tracker.succeeded, hc, Bool.false_eq_true, if_false]
      refine CatalogTracker.reflects_of_write rfl ?_ ?_ hstate
      · exact (CatalogTracker.Reflects.storable h).congr hversion hextra
      · exact Change.mem_versions_enterAll (CatalogTracker.Reflects.applied_iff h) session.changes

theorem maintains_commit_reflects {session : Session}
    (hs : session.Holds (Server.Untouched effect)) :
    Action.Maintains (Server.peer effect) Reflects (commit session) := by
  intro d s h
  cases hempty : session.isEmpty with
  | true =>
    rw [commit_of_isEmpty hempty]
    exact h
  | false =>
    have habort : d.afterAbort.Reflects s := by
      rw [h.afterAbort]
      exact h
    rw [commit_eq hempty]
    apply (always_check_server d session s).bind
    intro r s' hs'
    obtain rfl := hs'
    cases r with
    | error e => exact habort
    | ok u =>
      apply (always_sendBatches_server (d.commitBatches session) s').bind
      intro r s'' hr
      cases r with
      | ok u => exact h.succeeded hs hr
      | error e =>
        obtain ⟨n, hn, hr⟩ := hr
        obtain rfl := eq_of_executed_prefix hs (items_take_commitBatches hn) hr
        exact habort

theorem always_attach_reflects (config : Config) (capability : Capability) (skip : Bool) (s : Server) :
    (ExceptT.run (attach (.ofCapability config capability) skip)).Always (Server.peer effect)
      (fun r s' => ∀ d, r = .ok d → d.Reflects s') s := by
  have hprepare : (track Tracker.prepare (start (.ofCapability config capability) skip)).Always
      (Server.peer effect) (fun r s' => r.1 = .ok () → r.2.Ready s') s := by
    cases capability with
    | legacy =>
      rw [start, Tracker.ofCapability, Tracker.prepare, track_tables]
      apply (Exchange.always_true (fun _ _ => trivial) _ s).bind
      intro r s' _ _
      trivial
    | datasources =>
      rw [start, Tracker.ofCapability, Tracker.prepare, track_catalog]
      apply (CatalogTracker.always_prepare rfl).bind
      intro r s' hr hok
      obtain ⟨r, t⟩ := r
      cases r with
      | ok u => exact hr rfl
      | error e => simp at hok
  apply always_attach
  rw [Action.bind_apply]
  apply hprepare.bind
  intro r s' hr
  obtain ⟨r, d⟩ := r
  cases r with
  | error e => simp
  | ok u =>
    apply (always_scan (hr rfl)).mono
    intro r s'' hscan hok
    obtain ⟨rfl, -, ⟨hne, -⟩ | ⟨-, hreflects⟩⟩ := hscan
    · exact absurd hok hne
    · exact hreflects

/-- A call leaves the driver and the server in step, whatever is refused. -/
theorem always_call {c : Call} {k : Desk} {s : Server} (hc : c.Stages (Server.Untouched effect))
    (h : k.Holds Reflects (Server.Untouched effect) s) :
    (c.perform k).Always (Server.peer effect)
      (fun r s' => r.2.Holds Reflects (Server.Untouched effect) s') s :=
  Call.always_perform reflects_free (fun _ => maintains_scan_reflects)
    (fun _ hs _ => maintains_commit_reflects hs) (fun name _ => maintains_getSetting_reflects name)
    (fun name value _ => maintains_updateSetting_reflects name value) hc h

theorem always_performAll {calls : List Call} {k : Desk} {s : Server}
    (hcalls : ∀ c ∈ calls, c.Stages (Server.Untouched effect))
    (h : k.Holds Reflects (Server.Untouched effect) s) :
    (Call.performAll calls k).Always (Server.peer effect)
      (fun k' s' => k'.Holds Reflects (Server.Untouched effect) s') s := by
  induction calls generalizing k s with
  | nil => exact h
  | cons c cs ih =>
    apply (always_call (hcalls c List.mem_cons_self) h).bind
    intro r s' hr
    exact ih (fun c hc => hcalls c (List.mem_cons_of_mem _ hc)) hr

theorem Agrees.applied_eq {d d' : Driver} {s : Server} (h : d.Agrees s) (h' : d'.Agrees s)
    (hr : ∀ i, s.Records d'.tracker i ↔ s.Records d.tracker i) : d'.applied = d.applied := by
  apply VersionSet.eq_of_mem_iff
  intro v
  rw [← d'.applied.exists_mem_cast_iff, ← d.applied.exists_mem_cast_iff, h v, h' v, hr]

/-- A driver that is the only writer of its server knows after every call what is on record there: its
applied versions are the recorded ones, and a scan that succeeds finds the same. -/
theorem agrees_of_calls {config : Config} {capability : Capability} {skip : Bool} {s₀ s s' : Server}
    {d : Driver} {calls : List Call} {k : Desk}
    (hattach : (ExceptT.run (attach (.ofCapability config capability) skip)).Leads
      (Server.peer effect) s₀ (.ok d) s)
    (hcalls : ∀ c ∈ calls, c.Stages (Server.Untouched effect))
    (hrun : (Call.performAll calls ⟨d, none⟩).Leads (Server.peer effect) s k s') :
    k.driver.Agrees s' ∧ ∀ d' s'', (scan k.driver).Leads (Server.peer effect) s' (.ok (), d') s'' →
      d'.applied = k.driver.applied ∧ s'' = s' := by
  have hd : d.Reflects s := (always_attach_reflects config capability skip s₀).of_leads hattach d rfl
  have hk := (always_performAll hcalls ⟨hd, by simp⟩).of_leads hrun
  refine ⟨hk.1.agrees, fun d' s'' hscan => ?_⟩
  obtain ⟨rfl, hrecords, ⟨hne, -⟩ | ⟨-, hd'⟩⟩ := (always_scan hk.1.ready).of_leads hscan
  · exact absurd rfl hne
  · exact ⟨hk.1.agrees.applied_eq hd'.agrees hrecords, rfl⟩

/-- The body of a server that has stored an empty ledger. -/
def emptyLedgerBody : ByteArray := ("\x7b\"cli_state\":\x7b\"migration_settings\":" ++
  "\x7b\"migration_mode\":\"true\"\x7d,\"revision\":1,\"schema_migrations\":[],\"version\":2\x7d\x7d").toUTF8

def storing (l : Ledger) : Server where
  migrations := none
  settings := none
  cliState := some l.toJson
  ordered ms h := by
    cases h
    exact l.sorted_members

def onEmptyLedger : Driver :=
  ⟨.catalog ⟨Config.default.paths.metadata, Config.default.paths.v2Query, Config.default.source,
    Ledger.empty.advance, none⟩, .empty, false, false⟩

theorem catalog_emptyLedgerBody : Catalog.ofBytes? emptyLedgerBody =
    some ⟨"", some Ledger.empty.advance.toJson, none⟩ := by
  decide +kernel

theorem found_emptyLedgerBody : LedgerStore.found (.ok ⟨200, emptyLedgerBody⟩) =
    .ok (.current Ledger.empty.advance) := by
  rw [LedgerStore.found_of_body catalog_emptyLedgerBody]
  exact Ledger.decode_toJson ⟨rfl, Members.sorted_nil, fun _ _ => rfl⟩

theorem handles_emptyLedgerBody (store : LedgerStore) :
    Server.Handles effect (storing Ledger.empty.advance) store.readRequest (.ok ⟨200, emptyLedgerBody⟩)
      (storing Ledger.empty.advance) :=
  .executed rfl rfl (.read _ rfl rfl catalog_emptyLedgerBody rfl)

variable {κ : Type} {p : Peer κ} {k k' k'' : κ}

theorem leads_attach_of_answers
    (h : p.answers k (LedgerStore.readRequest ⟨Config.default.paths.metadata⟩)
      (.ok ⟨200, emptyLedgerBody⟩) k')
    (h' : p.answers k' (LedgerStore.readRequest ⟨Config.default.paths.metadata⟩)
      (.ok ⟨200, emptyLedgerBody⟩) k'') :
    (ExceptT.run (attach (.ofCapability .default .datasources) false)).Leads p k (.ok onEmptyLedger)
      k'' := by
  simp only [attach, start, Tracker.prepare, Tracker.ofCapability, Action.bind_apply, track_catalog]
  simp only [CatalogTracker.prepare_apply, Exchange.send_bind]
  refine .send h ?_
  simp only [found_emptyLedgerBody, StoredLedger.needsUpgrade, Bool.false_eq_true, if_false,
    Exchange.done_bind, mapError_ok, scan_catalog, Exchange.send_bind]
  refine .send h' ?_
  simp only [found_emptyLedgerBody]
  exact .done _ _

theorem leads_attach_onEmptyLedger :
    (ExceptT.run (attach (.ofCapability .default .datasources) false)).Leads (Server.peer effect)
      (storing Ledger.empty.advance) (.ok onEmptyLedger) (storing Ledger.empty.advance) :=
  leads_attach_of_answers (handles_emptyLedgerBody _) (handles_emptyLedgerBody _)

def oneVersion : Ledger := (Change.enterAll Ledger.empty.advance [.record 5 none]).advance

def recordFive : Session := (Session.start (.source "") false).change (.record 5 none)

theorem commitBatches_recordFive :
    commitBatches { onEmptyLedger with locked := true } recordFive =
      [⟨Config.default.paths.metadata, none,
        Bulk.empty.append (LedgerStore.writeOperation oneVersion) none⟩] := by
  have hbulk : (Bulk.empty.append (LedgerStore.writeOperation oneVersion) none).splitBy
      Operation.isSql = [(false, Bulk.empty.append (LedgerStore.writeOperation oneVersion) none)] := by
    simp [Bulk.splitBy, Bulk.append, Bulk.empty, runsBy]
  have hrecords : onEmptyLedger.tracker.withRecords recordFive.changes recordFive.bulk =
      Bulk.empty.append (LedgerStore.writeOperation oneVersion) none := rfl
  simp only [commitBatches, hrecords]
  simp only [onEmptyLedger, Tracker.batches, CatalogTracker.batches, hbulk, List.map_cons,
    List.map_nil, Bool.false_eq_true, if_false]

def oneVersionRequest : Request := Batch.toRequest ⟨Config.default.paths.metadata, none,
  Bulk.empty.append (LedgerStore.writeOperation oneVersion) none⟩

theorem performs_oneVersionRequest : ∃ v, oneVersionRequest.body = some v ∧
    Server.Performs effect v emptyLedgerBody (storing Ledger.empty.advance) (storing oneVersion) := by
  refine ⟨_, rfl, .bulk _ (bulkItems?_request _ none) (.cons ?_ (.nil _))⟩
  exact .write _ (cliWrite?_writeOperation oneVersion) rfl rfl rfl

theorem leads_record_of_answers
    (h : p.answers k (LedgerStore.readRequest ⟨Config.default.paths.metadata⟩)
      (.ok ⟨200, emptyLedgerBody⟩) k')
    (h' : p.answers k' oneVersionRequest (.ok ⟨200, emptyLedgerBody⟩) k'') :
    (Call.perform (.record (.record 5 none)) ⟨onEmptyLedger, none⟩).Leads p k
      (.ok (), ⟨onEmptyLedger.succeeded recordFive, none⟩) k'' := by
  have hcheck : check { onEmptyLedger with locked := true } recordFive =
      .send (LedgerStore.readRequest ⟨Config.default.paths.metadata⟩)
        fun reply => .done (checked ⟨_, _, _, Ledger.empty.advance, none⟩ reply) := rfl
  have hunlock : record (.record 5 none) onEmptyLedger =
      unlock recordFive { onEmptyLedger with locked := true } := record_apply _ _
  simp only [Call.perform, Desk.drive, Action.focus_apply, hunlock, unlock_apply,
    commit_eq (s := recordFive) rfl, hcheck, commitBatches_recordFive, run_sendBatches_cons,
    Exchange.send_bind, Exchange.done_bind]
  refine .send h ?_
  rw [checked_of_found found_emptyLedgerBody rfl]
  refine .send h' ?_
  exact .done _ _

theorem leads_record_five :
    (Call.perform (.record (.record 5 none)) ⟨onEmptyLedger, none⟩).Leads (Server.peer effect)
      (storing Ledger.empty.advance) (.ok (), ⟨onEmptyLedger.succeeded recordFive, none⟩)
      (storing oneVersion) := by
  obtain ⟨v, hv, hperforms⟩ := @performs_oneVersionRequest effect
  exact leads_record_of_answers (handles_emptyLedgerBody _) (.executed hv rfl hperforms)

/-- A version that is recorded is applied. -/
theorem agrees_of_recording :
    (onEmptyLedger.succeeded recordFive).Agrees (storing oneVersion) ∧
      5 ∈ (onEmptyLedger.succeeded recordFive).applied := by
  have hcalls : ∀ c ∈ [Call.record (.record 5 none)],
      c.Stages (Server.Untouched fun _ _ _ => False) := by
    simp [Call.Stages]
  have hrun : (Call.performAll [.record (.record 5 none)] ⟨onEmptyLedger, none⟩).Leads
      (Server.peer fun _ _ _ => False) (storing Ledger.empty.advance)
      ⟨onEmptyLedger.succeeded recordFive, none⟩ (storing oneVersion) :=
    leads_record_five.bind (.done _ _)
  have h := agrees_of_calls leads_attach_onEmptyLedger hcalls hrun
  exact ⟨h.1, by decide⟩

end Driver

end EngineMigrate
