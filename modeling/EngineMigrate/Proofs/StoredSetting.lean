import EngineMigrate.Proofs.DriverUse
import EngineMigrate.Proofs.LedgerRewrite
import EngineMigrate.Proofs.ResumedBootstrap

/-!
A setting that is stored, on a server that nobody else writes.  What is told of it is looked up anew each
time, and the ledger that a tracker keeps is the stored one or an older one, which it cannot write.  Main
statement: once a mode is stored, it is told to the driver and to any other one that is opened, whatever is
done with the driver and its sessions, until the next one is stored.
-/
namespace EngineMigrate

open Json (Value Members)

theorem Ledger.settings_enterAll (l : Ledger) (changes : List Change) :
    (Change.enterAll l changes).settings = l.settings := by
  induction changes generalizing l with
  | nil => rfl
  | cons c cs ih =>
    have hc : (c.enter l).settings = l.settings := by cases c <;> rfl
    exact (ih (c.enter l)).trans hc

namespace Server

variable {effect : Effect} {sends : Server → Request → Prop} {s s' : Server} {reply : Reply}

variable (effect) in
/-- Executing the operation touches neither the settings nor the ledger. -/
def SparesSettings (o : Operation) : Prop :=
  ∀ s s', Executes effect o.toJson s s' → s'.settings = s.settings ∧ s'.cliState = s.cliState

theorem ExecutesAll.spares {items : List Staged} (h : ∀ x ∈ items, SparesSettings effect x.operation)
    (he : ExecutesAll effect ((items.map Staged.operation).map Operation.toJson) s s') :
    s'.settings = s.settings ∧ s'.cliState = s.cliState := by
  have hkept := he.keeps (f := fun s => (s.settings, s.cliState)) fun o ho s s' he => by
    obtain ⟨x, hx, rfl⟩ := List.mem_map.1 ho
    obtain ⟨hset, hcli⟩ := h x hx s s' he
    rw [hset, hcli]
  exact Prod.mk.inj hkept

theorem settings_of_changes {changes : List Change}
    (h : ExecutesAll effect (changes.map fun c => (Tables.operation (Tables.changeSql c)).toJson) s s') :
    s'.settings = s.settings := by
  rw [← Function.comp_def Operation.toJson, ← List.map_map] at h
  refine h.keeps (f := Server.settings) fun o ho s s' he => ?_
  obtain ⟨c, -, rfl⟩ := List.mem_map.1 ho
  cases c with
  | record v name =>
    obtain ⟨st, htext, he⟩ := executes_statement (.insert v) he
    obtain rfl := Statement.eq_insert htext
    obtain ⟨rows, -, he⟩ := Option.bind_eq_some_iff.1 he
    split at he <;> cases he
    rfl
  | erase v =>
    obtain ⟨st, htext, he⟩ := executes_statement (.delete v) he
    obtain rfl := Statement.eq_delete htext
    obtain ⟨rows, -, rfl⟩ := Option.map_eq_some_iff.1 he
    rfl

/-- What the server tells of the mode, or would tell, is as `P` says. -/
def Shows (P : String → Prop) (s : Server) : Capability → Prop
  | .legacy => ∀ value, s.Tells "migration_mode" Settings.defaultMode value → P value
  | .datasources => ∃ l, s.ledger = .ok (.current l) ∧ P l.settings.migrationMode

theorem ledger_of_write {l : Ledger} (hplain : l.Plain) (hw : s.cliState = some l.toJson) :
    s.ledger = .ok (.current l) := by
  rw [ledger, hw, Ledger.decode_toJson hplain]

end Server

theorem CatalogTracker.committed_of_idle {t : CatalogTracker} (h : t.pending = none) : t.committed = t := by
  obtain ⟨metadataPath, queryPath, source, ledger, pending⟩ := t
  cases h
  rfl

namespace Driver

variable {effect : Server.Effect} {P : String → Prop} {c : Capability} {d : Driver} {s s' : Server}

/-- What the server tells of the mode is as `P` says.  A ledger that the tracker keeps is the stored one, or
an older one of it. -/
inductive Sees (P : String → Prop) : Capability → Driver → Server → Prop where
  | tables {t : Tables} {applied : VersionSet} {locked skip : Bool} {s : Server}
    (shown : s.Shows P .legacy) : Sees P .legacy ⟨.tables t, applied, locked, skip⟩ s
  | catalog {t : CatalogTracker} {applied : VersionSet} {locked skip : Bool} {s : Server} {l : Ledger}
    (idle : t.pending = none) (stored : s.ledger = .ok (.current l))
    (kept : t.ledger = l ∨ t.ledger.revision ≠ l.revision) (told : P l.settings.migrationMode) :
    Sees P .datasources ⟨.catalog t, applied, locked, skip⟩ s

theorem Sees.mono {Q : String → Prop} (h : Sees P c d s) (hP : ∀ mode, P mode → Q mode) : Sees Q c d s := by
  cases h with
  | tables shown => exact .tables fun value htells => hP value (shown value htells)
  | catalog idle stored kept told => exact .catalog idle stored kept (hP _ told)

theorem Sees.congr (h : Sees P c d s) (hset : s'.settings = s.settings) (hcli : s'.cliState = s.cliState) :
    Sees P c d s' := by
  cases h with
  | tables shown => exact .tables (by simpa only [Server.Shows, Server.Tells, hset] using shown)
  | catalog idle stored kept told =>
    exact .catalog idle (by rwa [Server.ledger, hcli]) kept told

theorem Sees.afterAbort (h : Sees P c d s) : d.afterAbort = d := by
  cases h with
  | tables shown => rfl
  | catalog idle stored kept told =>
    exact congrArg (Driver.mk · _ _ _) (Tracker.settled_catalog_iff.2 idle)

/-! Whatever the driver does, it sees afterwards what the server has. -/

/-- Changes are sent only where the ledger that is kept is the stored one. -/
def Abreast (session : Session) (d : Driver) (s : Server) : Prop :=
  session.changes.isEmpty = false → ∀ t, d.tracker = .catalog t → s.ledger = .ok (.current t.ledger)

/-- A commit of which everything was executed keeps the mode, whether the driver is told so or not. -/
theorem Sees.executed {session : Session} (h : Sees P c d s)
    (hs : session.Holds (Server.SparesSettings effect)) (habreast : d.Abreast session s)
    (he : Server.ExecutesAll effect (batchItems (d.commitBatches session)) s s') :
    Sees P c (d.succeeded session) s' ∧ Sees P c d s' := by
  cases h with
  | tables shown =>
    simp only [commitBatches, Tracker.batches, Tracker.withRecords, batchItems, List.flatMap_cons,
      List.flatMap_nil, List.append_nil, Tables.items_stage, List.map_append] at he
    obtain ⟨mid, hsession, hchanges⟩ := Server.executesAll_append he
    rw [List.map_map, List.map_map] at hchanges
    have hset := (Server.settings_of_changes hchanges).trans (hsession.spares hs).1
    have hshown : s'.Shows P .legacy := by simpa only [Server.Shows, Server.Tells, hset] using shown
    exact ⟨.tables hshown, .tables hshown⟩
  | @catalog t applied locked skip s l idle stored kept told =>
    simp only [commitBatches, Tracker.batches, batchItems, CatalogTracker.items_batches] at he
    cases hc : session.changes.isEmpty with
    | true =>
      simp only [Tracker.withRecords, hc, if_true] at he
      obtain ⟨hset, hcli⟩ := he.spares hs
      have hsame : Sees P .datasources ⟨.catalog t, applied, locked, skip⟩ s' :=
        (Sees.catalog idle stored kept told).congr hset hcli
      have hnil := List.isEmpty_iff.1 hc
      simp only [succeeded, Tracker.succeeded, hnil, List.isEmpty_nil, if_true,
        CatalogTracker.committed_of_idle idle]
      exact ⟨hsame, hsame⟩
    | false =>
      cases stored.symm.trans (habreast hc t rfl)
      simp only [Tracker.withRecords, hc, Bool.false_eq_true, if_false, Bulk.items_append,
        List.map_append] at he
      -- The last write replaces the ledger as a whole, so what the operations before it did is of no account.
      obtain ⟨mid, -, hwrite⟩ := Server.executesAll_append he
      obtain _ | ⟨hwrite, hrest⟩ := hwrite
      obtain _ | _ := hrest
      obtain ⟨hversion, hextra⟩ := t.ledger.enterAll_version_extra session.changes
      have hrevision := t.ledger.revision_enterAll session.changes
      have hplain : (t.successor session.changes).Plain :=
        (Server.plain_of_current stored).congr hversion hextra
      have hledger := Server.ledger_of_write hplain (Server.executes_write hwrite).1
      have hmode : P (t.successor session.changes).settings.migrationMode := by
        rw [CatalogTracker.successor, Ledger.settings_advance, t.ledger.settings_enterAll]
        exact told
      have hne : t.ledger.revision ≠ (t.successor session.changes).revision :=
        hrevision ▸ (Change.enterAll t.ledger session.changes).revision_ne_advance
      simp only [succeeded, Tracker.succeeded, hc, Bool.false_eq_true, if_false]
      exact ⟨.catalog rfl hledger (.inl rfl) hmode, .catalog idle hledger (.inr hne) hmode⟩

def modeRequest (d : Driver) : Request :=
  match d.tracker with
  | .tables t => t.request (.selectSetting "migration_mode")
  | .catalog t => t.store.readRequest

/-- Asked for the mode, the driver asks the server, which stays as it is, and gives this value, unless its
question is refused. -/
def Told (effect : Server.Effect) (value : String) (d : Driver) (s : Server) : Prop :=
  Server.Asks effect s (fun r => r.1 = .ok value) (fun r => ∃ e, r.1 = .error e) [d.modeRequest]
    (getSetting "migration_mode" d)

theorem Sees.told {value : String} (h : Sees (· = value) c d s) : d.Told effect value s := by
  cases h with
  | @tables t applied locked skip s shown =>
    rw [Told, getSetting, Tracker.getSetting, track_tables]
    refine (Tables.asks_getSetting t s rfl).map ?_ ?_
    · rintro r ⟨told, rfl, htells⟩
      rw [shown told htells]
      rfl
    · rintro r ⟨e, rfl⟩
      exact ⟨_, rfl⟩
  | @catalog t applied locked skip s l idle stored kept told =>
    rw [Told, getSetting, Tracker.getSetting, track_catalog, CatalogTracker.getSetting_apply]
    refine Server.asks_read (fun reply hfound => ?_) fun reply e he => ?_
    · exact ⟨_, rfl, by rw [hfound, stored]; exact congrArg Except.ok told⟩
    · exact ⟨_, rfl, _, by rw [he]; rfl⟩

end Driver

end EngineMigrate
