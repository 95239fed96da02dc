import EngineMigrate.Command.Run
import EngineMigrate.Proofs.PlanRaces
import EngineMigrate.Proofs.PlanStaging

/-!
Commands that look: the status of a project, and an application that is only planned.  Main statements: a
client that sends nothing but reads leaves the server as it was, and a command that looks sends besides
reads only what makes ready the place for records on a server that has none, and so changes nothing else.
-/
namespace EngineMigrate

/-- The text is a query. -/
def Statement.IsQuery (st : Statement) : Prop := "SELECT ".toList <+: st.text.toList

theorem Statement.isQuery_iff {st : Statement} : st.IsQuery ↔ "SELECT ".toList <+: st.head.toList := by
  constructor
  · intro h
    exact List.prefix_of_prefix_length_le h st.begins_text (by rw [length_head]; decide +kernel)
  · exact fun h => h.trans st.begins_text

theorem Statement.isQuery_count (table : Table) : (Statement.count table).IsQuery := by
  rw [isQuery_iff]
  simp only [head]
  decide +kernel

theorem Statement.isQuery_selectVersions : Statement.selectVersions.IsQuery := by
  rw [isQuery_iff]
  decide +kernel

theorem Statement.eq_of_isQuery {st : Statement} {s s' : Server} (hst : st.IsQuery)
    (h : st.execute s = some s') : s' = s := by
  rw [isQuery_iff] at hst
  cases st with
  | count t => exact (Option.some.inj h).symm
  | selectVersions =>
    obtain ⟨rows, -, rfl⟩ := Option.map_eq_some_iff.1 h
    rfl
  | selectSetting name =>
    obtain ⟨rows, -, rfl⟩ := Option.map_eq_some_iff.1 h
    rfl
  | create t => exact absurd hst (by simp only [head]; decide +kernel)
  | insert v => exact absurd hst (by simp only [head]; decide +kernel)
  | delete v => exact absurd hst (by simp only [head]; decide +kernel)
  | storeSetting name value => exact absurd hst (by simp only [head]; decide +kernel)

namespace Request

/-- Asks for the version, for the answer to a query, or for the ledger. -/
inductive Reads : Request → Prop where
  | version (path : String) : Reads ⟨.get, path, none⟩
  | query (t : Tables) {st : Statement} (h : st.IsQuery) : Reads (t.request st)
  | ledger (store : LedgerStore) : Reads store.readRequest

/-- Makes ready the place for records on a server of the capability, which is as `s` says: makes a table
that was not there at first, when the server was as `s₀` says, fills a new table of settings, or stores
the upgrade of a ledger that was missing or of the older layout. -/
inductive Readies (s₀ s : Server) : Capability → Request → Prop where
  | table (t : Tables) {table : Table} (h : s₀.has table = false) :
    Readies s₀ s .legacy (t.request (.create table))
  | default (t : Tables) {name value : String} (hknown : (name, value) ∈ Settings.known)
    (h : s₀.settings = none) (hnew : s.settings = some []) :
    Readies s₀ s .legacy (t.request (.storeSetting name value))
  | ledger (store : LedgerStore) {l : LegacyLedger} (h : s₀.ledger = .ok (.legacy l)) :
    Readies s₀ s .datasources (store.writeRequest l.upgrade.advance)

end Request

namespace Server

/-- Nothing has to be made ready: both tables are there, or the ledger is neither missing nor of the older
layout. -/
def IsReady (s : Server) : Capability → Prop
  | .legacy => ∀ table, s.has table = true
  | .datasources => ∀ l, s.ledger ≠ .ok (.legacy l)

/-- As it was, but for the place for records, which may have been made ready where there was none. -/
def Readied (s s' : Server) : Capability → Prop
  | .legacy => (s'.migrations = s.migrations ∨ s.migrations = none ∧ s'.migrations = some []) ∧
    (s'.settings = s.settings ∨ s.settings = none ∧
      (s'.settings = some [] ∨ s'.settings = some Settings.known)) ∧ s'.cliState = s.cliState
  | .datasources => s'.migrations = s.migrations ∧ s'.settings = s.settings ∧
    (s'.cliState = s.cliState ∨ ∃ l, s.ledger = .ok (.legacy l) ∧
      s'.cliState = some l.upgrade.advance.toJson)

theorem readied_refl (s : Server) (c : Capability) : s.Readied s c := by
  cases c with
  | legacy => exact ⟨.inl rfl, .inl rfl, rfl⟩
  | datasources => exact ⟨rfl, rfl, .inl rfl⟩

theorem IsReady.not_readies {s₀ s : Server} {c : Capability} (h : s₀.IsReady c) (q : Request) :
    ¬ q.Readies s₀ s c := by
  intro hq
  cases hq with
  | table t hmissing => exact absurd (h _) (by rw [hmissing]; decide)
  | default t hknown hmissing hnew => exact absurd (h .settings) (by simp [has, hmissing])
  | ledger store hlegacy => exact h _ hlegacy

/-- A server that nobody else uses meanwhile.  The reply to what was executed may get lost, and a request
without a body is answered in any way. -/
def alone (effect : Effect) (sends : Server → Request → Prop) : Peer Server where
  admits := sends
  answers s q reply s' :=
    (∃ told, Handles effect s q told s' ∧ (reply = told ∨ reply.isAccepted = false)) ∨
      q.body = none ∧ s' = s

section

variable {effect : Effect} {sends : Server → Request → Prop} {s s' : Server} {reply : Reply}

/-- A statement is executed or leaves everything as it was, and a result that is shown is its answer. -/
theorem alone_statement {t : Tables} {st : Statement}
    (h : (alone effect sends).answers s (t.request st) reply s') :
    (st.execute s = some s' ∧ ∀ r, Tables.shown reply = .ok r → st.Answers s r) ∨
      (s' = s ∧ ∀ r, Tables.shown reply ≠ .ok r) := by
  rcases h with ⟨told, hhandles, hreply⟩ | ⟨hbody, -⟩
  · have hshown : ∀ r, Tables.shown reply = .ok r → Tables.shown told = .ok r := by
      intro r hr
      rcases hreply with rfl | hlost
      · exact hr
      · rw [Tables.isAccepted_of_shown hr] at hlost
        cases hlost
    rcases handles_statement hhandles with ⟨st', htext, he, ha⟩ | ⟨hsame, hnone⟩
    · obtain rfl := Statement.text_injective htext
      exact .inl ⟨he, fun r hr => ha r (hshown r hr)⟩
    · exact .inr ⟨hsame, fun r hr => hnone r (hshown r hr)⟩
  · cases hbody

theorem alone_read {store : LedgerStore} (h : (alone effect sends).answers s store.readRequest reply s') :
    s' = s ∧ ∀ st, LedgerStore.found reply = .ok st → s.ledger = .ok st := by
  rcases h with ⟨told, hhandles, hreply⟩ | ⟨hbody, -⟩
  · obtain ⟨hsame, hfound⟩ := handles_read hhandles
    refine ⟨hsame, fun st hst => ?_⟩
    rcases hreply with rfl | hlost
    · exact hfound st hst
    · obtain ⟨response, -, rfl, hs, -⟩ := LedgerStore.found_eq_ok hst
      exact absurd (hs.symm.trans hlost) (by simp)
  · cases hbody

theorem alone_write {store : LedgerStore} {l : Ledger}
    (h : (alone effect sends).answers s (store.writeRequest l) reply s') :
    s' = s ∨ s'.cliState = some l.toJson ∧ s'.migrations = s.migrations ∧ s'.settings = s.settings := by
  rcases h with ⟨told, hhandles, -⟩ | ⟨hbody, -⟩
  · rcases handles_write hhandles with ⟨-, hw⟩ | ⟨-, hsame⟩
    · exact .inr hw
    · exact .inl hsame
  · cases hbody

theorem leads_alone {α : Type} {x : Exchange α} {a : α} (h : x.Leads (peer effect) s a s') :
    x.Leads (alone effect sends) s a s' := by
  induction h with
  | done a k => exact .done a k
  | send hr _ ih => exact .send (.inl ⟨_, hr, .inl rfl⟩) ih

theorem alone_reads {q : Request} (hq : q.Reads) (h : (alone effect sends).answers s q reply s') :
    s' = s := by
  cases hq with
  | version path =>
    rcases h with ⟨told, hhandles, -⟩ | ⟨-, hsame⟩
    · cases hhandles with
      | refused => rfl
      | executed hq => cases hq
    · exact hsame
  | query t hst =>
    rcases alone_statement h with ⟨he, -⟩ | ⟨hsame, -⟩
    · exact Statement.eq_of_isQuery hst he
    · exact hsame
  | ledger store => exact (alone_read h).1

end

/-- The same if the server is of a capability, which it tells where it tells its version. -/
def telling (effect : Effect) (c : Capability) (sends : Server → Request → Prop) : Peer Server where
  admits := sends
  answers s q reply s' := (alone effect sends).answers s q reply s' ∧
    (q.body = none → ∀ c', Capability.told reply = .ok c' → c' = c)

end Server

section

variable {effect : Server.Effect} {sends : Server → Request → Prop}

theorem Tables.always_ensureTable_alone {t : Tables} {table : Table} {s : Server}
    (hreads : ∀ s q, q.Reads → sends s q)
    (hcreates : s.has table = false → sends s (t.request (.create table))) :
    (ExceptT.run (t.ensureTable table.name table.columns)).Always (Server.alone effect sends)
      (fun r s' => s' = s ∧ r ≠ .ok true ∨
        s.has table = false ∧ (Statement.create table).execute s = some s') s := by
  have hcount : (t.request (.count table)).Reads := .query t (Statement.isQuery_count table)
  rw [run_ensureTable]
  refine ⟨hreads _ _ hcount, fun reply s' hr => ?_⟩
  obtain rfl := Server.alone_reads hcount hr
  dsimp only
  cases hcounted : counted reply with
  | error e => exact .inl ⟨rfl, by simp⟩
  | ok there =>
    cases there with
    | true => exact .inl ⟨rfl, by simp⟩
    | false =>
      obtain ⟨r, hshown, hcell⟩ := shown_of_counted hcounted
      have hmissing : s'.has table = false := by
        rcases Server.alone_statement hr with ⟨-, hanswers⟩ | ⟨-, hnone⟩
        · exact (Statement.has_of_answers (hanswers r hshown)).symm.trans hcell
        · exact absurd hshown (hnone r)
      refine ⟨hcreates hmissing, fun reply s'' hr => ?_⟩
      rcases Server.alone_statement hr with ⟨hmade, -⟩ | ⟨rfl, hnone⟩
      · exact .inr ⟨hmissing, hmade⟩
      · refine .inl ⟨rfl, ?_⟩
        cases hcreated : created reply with
        | error e => simp [Except.map]
        | ok u =>
          obtain ⟨r, hshown⟩ := shown_of_created hcreated
          exact absurd hshown (hnone r)

/-- Making ready the tables makes those that are missing, and stores the defaults in a new one. -/
theorem Tables.always_prepare_alone (t : Tables) (s : Server) :
    (ExceptT.run t.prepare).Always
      (Server.alone effect fun s' q => q.Reads ∨ q.Readies s s' .legacy)
      (fun _ s' => s.Readied s' .legacy) s := by
  rw [run_prepare]
  apply (always_ensureTable_alone (fun s q hq => .inl hq) fun h => .inr (.table t h)).bind
  intro r s₁ hfirst
  have hmigrations : (s₁.migrations = s.migrations ∨ s.migrations = none ∧ s₁.migrations = some []) ∧
      s₁.settings = s.settings ∧ s₁.cliState = s.cliState := by
    rcases hfirst with ⟨rfl, -⟩ | ⟨hmissing, hmade⟩
    · exact ⟨.inl rfl, rfl, rfl⟩
    · have hnone : s.migrations = none := by simpa [Server.has] using hmissing
      cases hmade
      exact ⟨.inr ⟨hnone, by simp [hnone]⟩, rfl, rfl⟩
  obtain ⟨hm, hset, hcli⟩ := hmigrations
  cases r with
  | error e => exact ⟨hm, .inl hset, hcli⟩
  | ok new =>
    -- the settings are as at first, so what is missing now was missing then
    have hcreates : s₁.has .settings = false →
        (t.request (.create .settings)).Reads ∨ (t.request (.create .settings)).Readies s s₁ .legacy :=
      fun h => .inr (.table t (by simpa [Server.has, hset] using h))
    apply (always_ensureTable_alone (fun s q hq => .inl hq) hcreates).bind
    intro r s₂ hsecond
    rcases hsecond with ⟨rfl, hold⟩ | ⟨hmissing, hmade⟩
    · cases r with
      | error e => exact ⟨hm, .inl hset, hcli⟩
      | ok new =>
        cases new with
        | true => exact absurd rfl hold
        | false => exact ⟨hm, .inl hset, hcli⟩
    · have hnone₁ : s₁.settings = none := by simpa [Server.has] using hmissing
      have hnone : s.settings = none := hset.symm.trans hnone₁
      have hs₂ : s₂ = { s₁ with settings := some [] } := by
        cases hmade
        simp [hnone₁]
      subst hs₂
      have hempty : s.Readied { s₁ with settings := some [] } .legacy :=
        ⟨hm, .inr ⟨hnone, .inl rfl⟩, hcli⟩
      cases r with
      | error e => exact hempty
      | ok new =>
        cases new with
        | false => exact hempty
        | true =>
          refine ⟨.inr (.default t (List.mem_singleton.2 rfl) hnone rfl), fun reply s₃ hr => ?_⟩
          rcases Server.alone_statement hr with ⟨hstored, -⟩ | ⟨rfl, -⟩
          · cases hstored
            exact ⟨hm, .inr ⟨hnone, .inr rfl⟩, hcli⟩
          · exact hempty

/-- Making ready the ledger stores the upgrade of one that is missing or of the older layout. -/
theorem CatalogTracker.always_prepare_alone (t : CatalogTracker) (s : Server) :
    (prepare t).Always (Server.alone effect fun s' q => q.Reads ∨ q.Readies s s' .datasources)
      (fun _ s' => s.Readied s' .datasources) s := by
  have hsame : s.Readied s .datasources := s.readied_refl _
  rw [prepare_apply]
  refine ⟨.inl (.ledger _), fun reply s' hr => ?_⟩
  obtain ⟨rfl, hledger⟩ := Server.alone_read hr
  dsimp only
  cases hst : LedgerStore.found reply with
  | error e => exact hsame
  | ok st =>
    have hs := hledger st hst
    cases st with
    | current l => exact hsame
    | legacy l =>
      simp only [StoredLedger.needsUpgrade, if_true, ask_writeChecked_apply]
      -- nobody writes between the two reads, so what is upgraded is still what is stored
      refine ⟨.inl (.ledger _), fun reply s'' hr => ?_⟩
      obtain ⟨rfl, -⟩ := Server.alone_read hr
      dsimp only
      cases LedgerStore.found reply with
      | error e => exact hsame
      | ok st =>
        dsimp only
        split
        · refine ⟨.inr (.ledger _ hs), fun reply s₃ hr => ?_⟩
          rcases Server.alone_write hr with rfl | ⟨hcli, hm, hset⟩
          · exact hsame
          · exact ⟨hm, hset, .inr ⟨l, hs, hcli⟩⟩
        · exact hsame

namespace Driver

theorem always_scan_reads (d : Driver) (s : Server) :
    (scan d).Always (Server.alone effect fun _ => Request.Reads) (fun _ s' => s' = s) s := by
  obtain ⟨tracker, applied, locked, skip⟩ := d
  cases tracker with
  | tables t =>
    rw [scan_tables]
    have hlook : (t.request .selectVersions).Reads := .query t Statement.isQuery_selectVersions
    exact ⟨hlook, fun reply s' hr => Server.alone_reads hlook hr⟩
  | catalog t =>
    rw [scan_catalog]
    exact ⟨.ledger _, fun reply s' hr => (Server.alone_read hr).1⟩

/-- Attaching a driver makes ready the place for its records and reads them. -/
theorem always_attach_alone (config : Config) (c : Capability) (skip : Bool) (s : Server) :
    (ExceptT.run (attach (.ofCapability config c) skip)).Always
      (Server.alone effect fun s' q => q.Reads ∨ q.Readies s s' c) (fun _ s' => s.Readied s' c) s := by
  have hscan (d : Driver) (s' : Server) (h : s.Readied s' c) : (scan d).Always
      (Server.alone effect fun s' q => q.Reads ∨ q.Readies s s' c) (fun _ s'' => s.Readied s'' c) s' := by
    have hsent : (scan d).Always (Server.alone effect fun s' q => q.Reads ∨ q.Readies s s' c)
        (fun _ s'' => s'' = s') s' := (always_scan_reads d s').of_admits (fun _ _ => .inl) rfl
    apply hsent.mono
    rintro r s'' rfl
    exact h
  have hready : ((do track Tracker.prepare; scan : Act Unit) (start (.ofCapability config c) skip)).Always
      (Server.alone effect fun s' q => q.Reads ∨ q.Readies s s' c) (fun _ s' => s.Readied s' c) s := by
    rw [Action.bind_apply]
    cases c with
    | legacy =>
      simp only [start, Tracker.ofCapability, Tracker.prepare, track_tables]
      rw [Exchange.always_bind]
      apply (Tables.always_prepare_alone _ s).bind
      intro r s' h
      cases r with
      | error e => exact h
      | ok u => exact hscan _ s' h
    | datasources =>
      simp only [start, Tracker.ofCapability, Tracker.prepare, track_catalog]
      rw [Exchange.always_bind]
      apply (CatalogTracker.always_prepare_alone _ s).bind
      intro r s' h
      obtain ⟨r, t⟩ := r
      cases r with
      | error e => exact h
      | ok u => exact hscan _ s' h
  apply hready.bind
  intro r s' h
  exact h

end Driver

theorem Capability.always_detect_telling {sends : Server → Request → Prop}
    (hreads : ∀ s q, q.Reads → sends s q) (path : String) (given : Option Capability) (told : Capability)
    (s : Server) : (ExceptT.run (Capability.detect path given)).Always (Server.telling effect told sends)
      (fun r s' => s' = s ∧ ∀ c, r = .ok c → c = given.getD told) s := by
  cases given with
  | some c => exact ⟨rfl, fun c' hc' => (Except.ok.inj hc').symm⟩
  | none =>
    have hprobe : Request.Reads ⟨.get, path, none⟩ := .version path
    rw [run_detect]
    exact ⟨hreads _ _ hprobe, fun reply s' hr => ⟨Server.alone_reads hprobe hr.1, hr.2 rfl⟩⟩

namespace Driver

/-- A client that connects attaches a driver for the capability that it was given or is told. -/
theorem always_connect_telling (config : Config) (given : Option Capability) (told : Capability)
    (s : Server) : (ExceptT.run (connect config given)).Always
      (Server.telling effect told fun s' q => q.Reads ∨ q.Readies s s' (given.getD told))
      (fun _ s' => s.Readied s' (given.getD told)) s := by
  rw [connect, Attempt.run_bind, Attempt.run_within]
  apply Exchange.always_bind.2
  apply (Capability.always_detect_telling (fun _ _ => .inl) config.paths.version given told s).bind
  rintro r s' ⟨rfl, hc⟩
  cases r with
  | error e => exact s'.readied_refl _
  | ok c =>
    obtain rfl := hc c rfl
    exact (always_attach_alone config _ config.skipConsistencyCheck s').of_peer (fun _ _ => id)
      fun _ _ _ _ hr => hr.1

theorem always_apply_reads {options : ApplyOptions} (hdry : options.dryRun = true) (t : FileTree)
    (source : Source) (target : Target) (d : Driver) (s : Server) :
    (apply t source target options d).Always (Server.alone effect fun _ => Request.Reads)
      (fun _ s' => s' = s) s := by
  rw [apply_eq, Action.bind_apply]
  apply (always_scan_reads d s).bind
  intro r s' h
  obtain ⟨r, d'⟩ := r
  cases r with
  | error e => exact h
  | ok u =>
    simp only [applyScanned, hdry, Bool.or_true, if_true]
    cases Plan.build source d'.applied target <;> exact h

end Driver

end

/-- Shows the status of the project, or plans an application of which nothing is carried out. -/
def Command.Looks : Command → Prop
  | .showStatus => True
  | .applyMigrations _ options => options.dryRun = true
  | _ => False

namespace Invocation

variable {effect : Server.Effect} {i : Invocation}

variable (effect i) in
/-- The server that a command is run for: while it is run nobody else uses it, it is of a capability, and
besides reads it is asked only to make ready what it has not. -/
def host (told : Capability) (s : Server) : Peer Server :=
  Server.telling effect told fun s' q => q.Reads ∨ q.Readies s s' (i.capability.getD told)

theorem always_withDriver {α : Type} {x : Driver.Act α}
    (hx : ∀ d s, (x d).Always (Server.alone effect fun _ => Request.Reads) (fun _ s' => s' = s) s)
    (config : Config) (t : FileTree) (s : Server) (told : Capability) :
    (i.withDriver config x t).Always (i.host effect told s)
      (fun r s' => r.2 = t ∧ s.Readied s' (i.capability.getD told)) s := by
  rw [withDriver, Action.ofAttempt_apply, Attempt.run_bind, Exchange.always_bind, Exchange.always_bind]
  apply (Driver.always_connect_telling config i.capability told s).mono
  intro r s' h
  cases r with
  | error e => exact ⟨rfl, h⟩
  | ok d =>
    have hsent : (x d).Always (i.host effect told s) (fun _ s'' => s'' = s') s' :=
      (hx d s').of_peer (fun _ _ => .inl) fun _ _ _ _ hr => hr.1
    apply hsent.bind
    rintro r s'' rfl
    exact ⟨rfl, h⟩

theorem always_applyMigrations {options : ApplyOptions} (hdry : options.dryRun = true)
    (config : Config) (request : TargetRequest) (t : FileTree) (s : Server) (told : Capability) :
    (i.applyMigrations config request options t).Always (i.host effect told s)
      (fun r s' => r.2 = t ∧ s.Readied s' (i.capability.getD told)) s := by
  simp only [applyMigrations, source, Action.bind_apply, Action.ofExcept_apply, Action.get_apply,
    Exchange.done_bind]
  cases request.resolve with
  | error e => exact ⟨rfl, s.readied_refl _⟩
  | ok target =>
    simp only [mapError_ok]
    cases Source.scan t (config.migrationsPath i.project) with
    | error e => exact ⟨rfl, s.readied_refl _⟩
    | ok source =>
      simp only [mapError_ok]
      apply (always_withDriver (Driver.always_apply_reads hdry t source target) config t s told).bind
      intro r s' h
      obtain ⟨r, t'⟩ := r
      cases r <;> exact h

theorem always_showStatus (config : Config) (t : FileTree) (s : Server) (told : Capability) :
    (i.showStatus config t).Always (i.host effect told s)
      (fun r s' => r.2 = t ∧ s.Readied s' (i.capability.getD told)) s := by
  simp only [showStatus, source, Action.bind_apply, Action.ofExcept_apply, Action.get_apply,
    Exchange.done_bind]
  cases Source.scan t (config.migrationsPath i.project) with
  | error e => exact ⟨rfl, s.readied_refl _⟩
  | ok source =>
    simp only [mapError_ok]
    apply (always_withDriver (x := Driver.applied <$> get) (fun d s => rfl) config t s told).bind
    intro r s' h
    obtain ⟨r, t'⟩ := r
    cases r <;> exact h

theorem always_run (hi : i.command.Looks) (moment : Nat) (t : FileTree) (s : Server) (told : Capability) :
    (i.run moment t).Always (i.host effect told s)
      (fun r s' => r.2 = t ∧ s.Readied s' (i.capability.getD told)) s := by
  simp only [run, Action.bind_apply, Action.get_apply, Exchange.done_bind, Action.ofExcept_apply]
  cases i.prepare t with
  | error e => exact ⟨rfl, s.readied_refl _⟩
  | ok prepared =>
    obtain ⟨config, endpoint⟩ := prepared
    simp only [mapError_id, perform]
    cases hcommand : i.command with
    | showStatus => exact always_showStatus config t s told
    | applyMigrations request options =>
      rw [hcommand] at hi
      exact always_applyMigrations hi config request t s told
    | _ =>
      rw [hcommand] at hi
      exact hi.elim

/-- Besides reads, a command that looks sends only what makes ready the place for records where the server,
of the capability that was given or else is told, has none, and it leaves the files and all else on the server
alone.  Where nothing has to be made ready it sends only reads, and the server is the same afterwards. -/
theorem run_reads (hi : i.command.Looks) (moment : Nat) (t : FileTree) (s : Server) (told : Capability) :
    (i.run moment t).Always
      (Server.telling effect told fun s' q => q.Reads ∨ q.Readies s s' (i.capability.getD told))
      (fun r s' => r.2 = t ∧ s.Readied s' (i.capability.getD told)) s ∧
    (s.IsReady (i.capability.getD told) →
      (i.run moment t).Always (Server.telling effect told fun _ => Request.Reads)
        (fun r s' => r.2 = t ∧ s' = s) s) := by
  have hrun := @always_run effect i hi moment t s told
  refine ⟨hrun, fun hready => ?_⟩
  have hlooks : (i.run moment t).Always (Server.telling effect told fun _ => Request.Reads)
      (fun r s' => r.2 = t ∧ s.Readied s' (i.capability.getD told)) s :=
    hrun.of_admits (fun s' q hq => hq.resolve_right (hready.not_readies q)) rfl
  exact (hlooks.same fun _ _ _ _ hq hr => Server.alone_reads hq hr.1).mono fun r s' h => ⟨h.1.1, h.2⟩

/-- A command on a project that sets nothing up. -/
def plain (capability : Option Capability) (command : Command) : Invocation :=
  ⟨".", none, none, capability, none, command⟩

/-- A project with no configuration and no migrations. -/
def plainTree : FileTree := ⟨[], [(["migrations"], .directory)]⟩

theorem prepare_plain (capability : Option Capability) (command : Command) :
    ∃ e, (plain capability command).prepare plainTree = .ok (.default, e) := by
  have hsettled : ((plain none .showStatus).prepare plainTree).toOption.map Prod.fst = some .default := by
    decide +kernel
  have hsame : (plain capability command).prepare plainTree = (plain none .showStatus).prepare plainTree :=
    rfl
  obtain ⟨⟨config, e⟩, hprepared, rfl⟩ := Option.map_eq_some_iff.1 hsettled
  exact ⟨e, hsame.trans (eq_ok_of_toOption hprepared)⟩

theorem run_plain (capability : Option Capability) (command : Command) (moment : Nat) :
    (plain capability command).run moment plainTree =
      (plain capability command).perform .default moment plainTree := by
  obtain ⟨e, hprepare⟩ := prepare_plain capability command
  simp only [run, Action.bind_apply, Action.get_apply, Exchange.done_bind, Action.ofExcept_apply,
    hprepare, mapError_id]

def plainSource : Source := ⟨"./migrations", []⟩

theorem scan_plain (capability : Option Capability) (command : Command) :
    Source.scan plainTree (Config.default.migrationsPath (plain capability command).project) =
      .ok plainSource := by
  have hscan : (Source.scan plainTree (Config.default.migrationsPath ".")).toOption =
      some plainSource := by decide +kernel
  exact eq_ok_of_toOption hscan

theorem leads_connect {κ : Type} {p : Peer κ} {capability : Option Capability} {d : Driver} {k k' k'' : κ}
    (hdetect : (ExceptT.run (Capability.detect Config.default.paths.version capability)).Leads p k
      (.ok .datasources) k')
    (hattach : (ExceptT.run (Driver.attach (.ofCapability .default .datasources) false)).Leads p k'
      (.ok d) k'') : (ExceptT.run (Driver.connect .default capability)).Leads p k (.ok d) k'' := by
  rw [Driver.connect, Attempt.run_bind, Attempt.run_within]
  refine Exchange.Leads.bind (hdetect.bind (.done _ _)) ?_
  exact hattach

theorem leads_withDriver {α κ : Type} {p : Peer κ} {capability : Option Capability} (command : Command)
    {x : Driver.Act α} {d : Driver} {r : Except DriverFault α × Driver} {k k' k'' : κ}
    (hconnect : (ExceptT.run (Driver.connect .default capability)).Leads p k (.ok d) k')
    (hx : (x d).Leads p k' r k'') : ((plain capability command).withDriver .default x plainTree).Leads p k
      (r.1.mapError .driver, plainTree) k'' := by
  rw [withDriver, Action.ofAttempt_apply, Attempt.run_bind]
  have hdriver : (x d >>= fun r => Exchange.done r.1).Leads p k' r.1 k'' := hx.bind (.done _ _)
  exact (hconnect.bind hdriver).bind (.done _ _)

def bareServer : Server := .ofTables none none

variable (effect) in
theorem leads_attach_bare :
    (ExceptT.run (Driver.attach (.ofCapability .default .datasources) false)).Leads (Server.peer effect)
      bareServer (.ok Driver.onEmptyLedger) (Driver.storing Ledger.empty.advance) := by
  have hbody : Catalog.ofBytes? "\x7b\x7d".toUTF8 = some ⟨"", none, none⟩ := by decide +kernel
  have hread (store : LedgerStore) :
      Server.Handles effect bareServer store.readRequest Driver.noLedger bareServer :=
    .executed rfl rfl (.read _ rfl rfl hbody rfl)
  have hwrite (store : LedgerStore) : Server.Handles effect bareServer
      (store.writeRequest Ledger.empty.advance) Driver.noLedger (Driver.storing Ledger.empty.advance) := by
    have hcli := cliWrite?_writeOperation Ledger.empty.advance
    exact .executed rfl rfl (.write (by simp [hcli]) (.write _ hcli rfl rfl rfl))
  have hwritten : LedgerStore.written Driver.noLedger = .ok () := rfl
  simp only [Driver.attach, Driver.start, Tracker.prepare, Tracker.ofCapability, Action.bind_apply,
    Driver.track_catalog]
  simp only [CatalogTracker.prepare_apply, CatalogTracker.ask_writeChecked_apply, Exchange.send_bind]
  refine .send (hread _) ?_
  simp only [Driver.found_noLedger, StoredLedger.needsUpgrade, if_true, Exchange.send_bind]
  refine .send (hread _) ?_
  simp only [Driver.found_noLedger, StoredLedger.revision_upgrade, if_true, Exchange.send_bind]
  refine .send (hwrite _) ?_
  simp only [hwritten, mapError_ok, Exchange.done_bind, Driver.scan_catalog, Exchange.send_bind]
  refine .send (Driver.handles_emptyLedgerBody _) ?_
  simp only [Driver.found_emptyLedgerBody]
  exact .done _ _

def bareLedger : Server := Driver.storing Ledger.empty.advance

/-- What a server tells of its version if it has data sources. -/
def versionBody : ByteArray := "\x7b\"version\":\"v2.1.0\"\x7d".toUTF8

theorem told_versionBody : Capability.told (.ok ⟨200, versionBody⟩) = .ok .datasources := by
  have hinfo : ServerInfo.ofBytes? versionBody = some ⟨"v2.1.0", none⟩ := by decide +kernel
  have hcapability : Capability.ofVersion "v2.1.0" = .datasources := by decide +kernel
  have hdecoded : (Response.mk 200 versionBody).decode ServerInfo.ofBytes? = .ok ⟨"v2.1.0", none⟩ := by
    simp [Response.decode, Response.checked, Response.isSuccess, hinfo, bind, Except.bind]
  simp only [Capability.told, hdecoded, ServerInfo.capability, hcapability]

/-- The status of the plain project, where a ledger is stored and no capability is given. -/
theorem run_reads_status : (plain none .showStatus).command.Looks ∧
    bareLedger.IsReady ((plain none .showStatus).capability.getD .datasources) ∧
    ((plain none .showStatus).run 0 plainTree).Leads
      (Server.telling Driver.untouching .datasources fun _ => Request.Reads)
      bareLedger (.ok (Report.statusLines []), plainTree) bareLedger ∧
    ((plain none .showStatus).run 0 plainTree).Always
      (Server.telling Driver.untouching .datasources fun _ => Request.Reads)
      (fun r s' => r.2 = plainTree ∧ s' = bareLedger) bareLedger := by
  have hready : bareLedger.IsReady .datasources := by
    intro l hl
    have hcurrent : bareLedger.ledger = .ok (.current Ledger.empty.advance) :=
      Ledger.decode_toJson ⟨rfl, Json.Members.sorted_nil, fun _ _ => rfl⟩
    rw [hcurrent] at hl
    cases hl
  have hdetect : (ExceptT.run (Capability.detect Config.default.paths.version none)).Leads
      (Server.telling Driver.untouching .datasources fun _ => Request.Reads) bareLedger
      (.ok .datasources) bareLedger := by
    rw [Capability.run_detect]
    have htold : ∀ c, Capability.told (.ok ⟨200, versionBody⟩) = .ok c → c = .datasources := by
      intro c hc
      exact Except.ok.inj (hc.symm.trans told_versionBody)
    refine .send ⟨.inr ⟨rfl, rfl⟩, fun _ => htold⟩ ?_
    rw [told_versionBody]
    exact .done _ _
  have hlook (store : LedgerStore) :
      (Server.telling Driver.untouching .datasources fun _ => Request.Reads).answers bareLedger
        store.readRequest (.ok ⟨200, Driver.emptyLedgerBody⟩) bareLedger :=
    ⟨.inl ⟨_, Driver.handles_emptyLedgerBody store, .inl rfl⟩, fun hnone => by cases hnone⟩
  have happlied : ((Driver.applied <$> get : Driver.Act VersionSet) Driver.onEmptyLedger).Leads
      (Server.telling Driver.untouching .datasources fun _ => Request.Reads) bareLedger
      (.ok .empty, Driver.onEmptyLedger) bareLedger := .done _ _
  have hconnect := leads_connect hdetect (Driver.leads_attach_of_answers (hlook _) (hlook _))
  have hstatus := leads_withDriver .showStatus hconnect happlied
  have hrun : ((plain none .showStatus).run 0 plainTree).Leads
      (Server.telling Driver.untouching .datasources fun _ => Request.Reads) bareLedger
      (.ok (Report.statusLines []), plainTree) bareLedger := by
    have hperform : (plain none .showStatus).perform .default 0 =
        (plain none .showStatus).showStatus .default := rfl
    rw [run_plain, hperform]
    simp only [showStatus, source, Action.bind_apply, Action.get_apply, Exchange.done_bind,
      Action.ofExcept_apply, scan_plain, mapError_ok]
    exact hstatus.bind (.done _ _)
  have hreads := @run_reads Driver.untouching (plain none .showStatus) trivial 0 plainTree bareLedger
    .datasources
  exact ⟨trivial, hready, hrun, hreads.2 hready⟩

def planning : Invocation := plain (some .datasources) (.applyMigrations .unsaid ⟨true, false⟩)

/-- A planned application on a server without a ledger has one stored. -/
theorem dryRun_stores_ledger : planning.command.Looks ∧
    (planning.run 0 plainTree).Leads (Server.alone Driver.untouching fun _ => Request.Reads) bareServer
      (.ok ["Nothing to apply"], plainTree) bareLedger ∧ bareLedger.cliState ≠ bareServer.cliState ∧
    ¬ (planning.run 0 plainTree).Always (Server.alone Driver.untouching fun _ => Request.Reads)
      (fun _ _ => True) bareServer := by
  have happly : (Driver.apply plainTree plainSource (.up none) ⟨true, false⟩ Driver.onEmptyLedger).Leads
      (Server.peer Driver.untouching) bareLedger (.ok ⟨[], true⟩, Driver.onEmptyLedger) bareLedger := by
    rw [Driver.apply_eq, Action.bind_apply, Driver.onEmptyLedger, Driver.scan_catalog]
    refine .send (Driver.handles_emptyLedgerBody _) ?_
    simp only [Driver.found_emptyLedgerBody]
    exact .done _ _
  have hdetect : (ExceptT.run (Capability.detect Config.default.paths.version (some .datasources))).Leads
      (Server.peer Driver.untouching) bareServer (.ok .datasources) bareServer := .done _ _
  have hplanned := leads_withDriver (.applyMigrations .unsaid ⟨true, false⟩)
    (leads_connect hdetect (leads_attach_bare Driver.untouching)) happly
  have hrun : (planning.run 0 plainTree).Leads (Server.peer Driver.untouching) bareServer
      (.ok ["Nothing to apply"], plainTree) bareLedger := by
    have hperform : planning.perform .default 0 =
        planning.applyMigrations .default .unsaid ⟨true, false⟩ := rfl
    have hresolve : TargetRequest.unsaid.resolve = .ok (.up none) := rfl
    rw [planning, run_plain, ← planning, hperform]
    simp only [applyMigrations, planning, hresolve, source, Action.bind_apply, Action.get_apply,
      Exchange.done_bind, Action.ofExcept_apply, scan_plain, mapError_ok]
    exact hplanned.bind (.done _ _)
  have hlost : bareLedger.cliState ≠ bareServer.cliState := by
    intro h
    cases h
  refine ⟨rfl, Server.leads_alone hrun, hlost, fun hreads => ?_⟩
  obtain ⟨-, hsame⟩ := (hreads.same fun _ _ _ _ => Server.alone_reads).of_leads (Server.leads_alone hrun)
  exact hlost (congrArg Server.cliState hsame)

end Invocation

end EngineMigrate
