import EngineMigrate.Proofs.SqlLiteral
import EngineMigrate.Proofs.TrackerAgreement

/-!
The tasks of a client on a server that keeps its records in tables: it opens a driver, applies a source,
or reads or writes a setting.  Main statement: whatever the server replies, each request of a task is one
of a few, and what it depends on was shown by the requests before it.
-/
namespace EngineMigrate

/-- A request that was executed, with its reply and the server before and after it. -/
structure Event where
  request : Request
  reply : Reply
  before : Server
  after : Server

/-- The reply is to a request that was not executed: a refusal or, to a request without a body, what a
server without data sources tells about itself. -/
def Request.Passes (q : Request) (reply : Reply) : Prop :=
  reply.isAccepted = false ∨ q.body = none ∧ ∃ response, reply = .ok response ∧
    ∀ info, response.decode ServerInfo.ofBytes? = .ok info → info.capability = .legacy

namespace Tables

theorem isAccepted_of_shown {reply : Reply} {r : SqlResult} (h : shown reply = .ok r) :
    reply.isAccepted = true := by
  obtain ⟨response, rfl, hs, -⟩ := shown_eq_ok h
  exact hs

theorem shown_of_listed {reply : Reply} {es : List Entry} (h : listed reply = .ok es) :
    ∃ r, shown reply = .ok r := by
  unfold listed at h
  cases hr : shown reply with
  | error e => simp [hr] at h
  | ok r => exact ⟨r, rfl⟩

theorem shown_of_counted {reply : Reply} {b : Bool} (h : counted reply = .ok b) :
    ∃ r, shown reply = .ok r ∧ (firstCell? r).any (· != "0") = b := by
  unfold counted at h
  cases hr : shown reply with
  | error e => simp [hr] at h
  | ok r =>
    rw [hr] at h
    dsimp only at h
    split at h
    · exact ⟨r, rfl, Except.ok.inj h⟩
    · cases h

theorem shown_of_created {reply : Reply} {u : Unit} (h : created reply = .ok u) :
    ∃ r, shown reply = .ok r := by
  unfold created at h
  cases hr : shown reply with
  | error e => simp [hr] at h
  | ok r => exact ⟨r, rfl⟩

end Tables

namespace Event

variable {effect : Server.Effect} {e : Event}

variable (effect) in
/-- The server has done what the request says and accepted it; the reply may have got lost. -/
def Honest (e : Event) : Prop :=
  ∃ v response, e.request.body = some v ∧ response.isSuccess = true ∧
    Server.Performs effect v response.body e.before e.after ∧
    (e.reply = .ok response ∨ e.reply.isAccepted = false)

theorem Honest.handles (h : e.Honest effect) (ha : e.reply.isAccepted = true) :
    Server.Handles effect e.before e.request e.reply e.after := by
  obtain ⟨v, response, hv, hs, hp, hr | hr⟩ := h
  · rw [hr]
    exact .executed hv hs hp
  · exact absurd ha (by simp [hr])

theorem Honest.statement (h : e.Honest effect) {t : Tables} {st : Statement}
    (hq : e.request = t.request st) :
    st.execute e.before = some e.after ∧ ∀ r, Tables.shown e.reply = .ok r → st.Answers e.before r := by
  obtain ⟨v, response, hv, hs, hp, hreply⟩ := h
  rw [hq] at hv
  cases hv
  obtain ⟨st', htext, he, r, hb, ha⟩ := Server.performs_statement hp
  obtain rfl := Statement.text_injective htext
  refine ⟨he, fun r' hr' => ?_⟩
  obtain ⟨response', hresponse, -, hb'⟩ := Tables.shown_eq_ok hr'
  rcases hreply with hreply | hlost
  · obtain rfl := Except.ok.inj (hreply.symm.trans hresponse)
    rw [hb] at hb'
    cases hb'
    exact ha
  · rw [Tables.isAccepted_of_shown hr'] at hlost
    cases hlost

theorem Honest.rows_of_listed (h : e.Honest effect) {t : Tables} {es : List Entry}
    (hq : e.request = t.request .selectVersions) (hes : Tables.listed e.reply = .ok es) (i : Int) :
    (∃ x ∈ es, (x.version : Int) = i) ↔ e.after.Rows i := by
  obtain ⟨r, hr⟩ := Tables.shown_of_listed hes
  have hhandles := h.handles (Tables.isAccepted_of_shown hr)
  rw [hq] at hhandles
  obtain ⟨hafter, hrows⟩ := Server.handles_selectVersions hhandles
  rw [hafter]
  exact hrows es hes i

theorem Honest.batch (h : e.Honest effect) {b : Batch} (hq : e.request = b.toRequest) :
    Server.ExecutesAll effect (b.bulk.operations.map Operation.toJson) e.before e.after := by
  obtain ⟨v, response, hv, -, hp, -⟩ := h
  rw [hq] at hv
  cases hv
  exact Server.performs_batch hp

end Event

/-- What a file of the source is staged as in a session. -/
def Session.fileItems (t : FileTree) (source : Source) (s : Session) (f : MigrationFile) :
    Option (List Staged) :=
  match source.read t f with
  | .error _ => none
  | .ok content => match s.operations f.kind content with
    | .error _ => none
    | .ok os => some (os.map (⟨·, some f.fileName⟩))

theorem exists_of_mem_mapM {α β : Type} {f : α → Option β} {as : List α} {bs : List β}
    (h : as.mapM f = some bs) {b : β} (hb : b ∈ bs) : ∃ a ∈ as, f a = some b := by
  induction as generalizing bs with
  | nil =>
    cases h
    cases hb
  | cons a as ih =>
    simp only [List.mapM_cons, Option.bind_eq_bind, Option.bind_eq_some_iff, Option.pure_def,
      Option.some.injEq] at h
    obtain ⟨b', hb', rest, hrest, rfl⟩ := h
    rcases List.mem_cons.1 hb with rfl | hb
    · exact ⟨a, List.mem_cons_self, hb'⟩
    · obtain ⟨a', ha', hf⟩ := ih hrest hb
      exact ⟨a', List.mem_cons_of_mem _ ha', hf⟩

/-- The operations that the files of the source stand for are as `ok` says. -/
def Source.StagesOnly (t : FileTree) (skip : Bool) (ok : Operation → Prop) (source : Source) : Prop :=
  ∀ f ∈ source.files, ∀ items, (Session.start .query skip).fileItems t source f = some items →
    ∀ x ∈ items, ok x.operation

namespace Session

variable {t : FileTree} {source : Source}

theorem fileItems_congr {s s' : Session} (hroute : s.route = s'.route)
    (hskip : s.skipConsistencyCheck = s'.skipConsistencyCheck) :
    s.fileItems t source = s'.fileItems t source := by
  funext f
  simp only [fileItems, operations, sqlArgs, hroute, hskip]

theorem items_runFiles {fs : List MigrationFile} {s s' : Session}
    (h : s.runFiles t source fs = .ok s') :
    s'.fileItems t source = s.fileItems t source ∧ ∃ parts,
      fs.mapM (s.fileItems t source) = some parts ∧ s'.bulk.items = s.bulk.items ++ parts.flatten := by
  induction fs generalizing s with
  | nil =>
    cases h
    exact ⟨rfl, [], rfl, by simp⟩
  | cons f fs ih =>
    rw [runFiles] at h
    cases hread : source.read t f with
    | error e => simp [hread] at h
    | ok content =>
      rcases ho : s.operations f.kind content with e | os
      · simp [hread, run, ho] at h
      · simp only [hread, run, ho] at h
        obtain ⟨hsame, parts, hparts, hitems⟩ := ih h
        have happend : (s.appendAll os f.fileName).fileItems t source = s.fileItems t source :=
          fileItems_congr rfl rfl
        rw [happend] at hsame hparts
        refine ⟨hsame, os.map (⟨·, some f.fileName⟩) :: parts, ?_, ?_⟩
        · simp [hparts, fileItems, hread, ho]
        · simp [hitems, items_appendAll]

theorem items_stagePlan {skip : Bool} {p : Plan} {s s' : Session}
    (h : s.stagePlan t source skip p = .ok s') : ∃ parts,
      (if skip then [] else p.flatMap Step.files).mapM (s.fileItems t source) = some parts ∧
        s'.bulk.items = s.bulk.items ++ parts.flatten := by
  induction p generalizing s with
  | nil =>
    cases h
    exact ⟨[], by cases skip <;> rfl, by simp⟩
  | cons step p ih =>
    rw [stagePlan_cons] at h
    split at h
    · cases h
    · rename_i s₁ hfiles
      obtain ⟨hsame, parts, hparts, hitems⟩ := items_runFiles hfiles
      obtain ⟨parts', hparts', hitems'⟩ := ih h
      have hchange : (s₁.change step.change).fileItems t source = s₁.fileItems t source :=
        fileItems_congr rfl rfl
      rw [hchange, hsame] at hparts'
      have hbulk : (s₁.change step.change).bulk = s₁.bulk := rfl
      rw [hbulk, hitems] at hitems'
      refine ⟨parts ++ parts', ?_, by simp [hitems']⟩
      cases skip with
      | true => simp_all
      | false => simp_all [List.mapM_append]

theorem holds_stagePlan {ok : Operation → Prop} {skip only : Bool} {p : Plan} {s : Session}
    (hsource : source.StagesOnly t skip ok) (hp : ∀ step ∈ p, ∀ f ∈ step.files, f ∈ source.files)
    (h : (start .query skip).stagePlan t source only p = .ok s) : s.Holds ok := by
  obtain ⟨parts, hparts, hitems⟩ := items_stagePlan h
  intro x hx
  rw [hitems] at hx
  obtain ⟨part, hpart, hx⟩ := List.mem_flatten.1 hx
  obtain ⟨f, hf, hread⟩ := exists_of_mem_mapM hparts hpart
  refine hsource f ?_ part hread x hx
  cases only with
  | true => cases hf
  | false =>
    obtain ⟨step, hstep, hf⟩ := List.mem_flatMap.1 hf
    exact hp step hstep f hf

end Session

/-- What a client does at a time, with the driver that it uses for it. -/
inductive Task where
  | connect (config : Config) (capability : Option Capability)
  | apply (d : Driver) (t : FileTree) (source : Source) (target : Target) (options : ApplyOptions)
  | getSetting (d : Driver) (name : String)
  | updateSetting (d : Driver) (name value : String)

/-- The commit that a client comes to make when it applies a source. -/
structure Commit where
  driver : Driver
  tables : Tables
  tree : FileTree
  source : Source
  target : Target
  options : ApplyOptions
  /-- The look at the versions that the plan is made from. -/
  look : Event
  entries : List Entry
  plan : Plan
  session : Session
  tracker_eq : driver.tracker = .tables tables
  look_request : look.request = tables.request .selectVersions
  listed : Tables.listed look.reply = .ok entries
  planned : Plan.build source (.ofList (entries.map Entry.version)) target = .ok plan
  staged : (Session.start .query driver.skipConsistencyCheck).stagePlan tree source
    options.skipExecution plan = .ok session

namespace Commit

def task (c : Commit) : Task := .apply c.driver c.tree c.source c.target c.options

def batch (c : Commit) : Batch := ⟨c.tables.path, none, Tables.stage c.session.changes c.session.bulk⟩

theorem changes_eq (c : Commit) : c.session.changes = c.plan.map Step.change :=
  (Session.changes_stagePlan c.staged).trans (List.nil_append _)

end Commit

namespace Task

/-- What the client exchanges with the server, up to the driver that it has afterwards. -/
def exchange : Task → Exchange (Option Driver)
  | .connect config capability => do
    let r ← ExceptT.run (Driver.connect config capability)
    return r.toOption
  | .apply d t source target options => do
    let (_, d) ← Driver.apply t source target options d
    return some d
  | .getSetting d name => do
    let (_, d) ← Driver.getSetting name d
    return some d
  | .updateSetting d name value => do
    let (_, d) ← Driver.updateSetting name value d
    return some d

/-- A client with a driver can begin the task, if every operation of its files is as `ok` says. -/
def Begins (ok : Operation → Prop) (held : Option Driver) : Task → Prop
  | .connect _ capability => capability ≠ some .datasources
  | .apply d t source _ _ => held = some d ∧ source.StagesOnly t d.skipConsistencyCheck ok
  | .getSetting d _ => held = some d
  | .updateSetting d _ _ => held = some d

def IsConnect : Task → Prop
  | .connect _ _ => True
  | _ => False

/-- The requests of a task, after those that were executed already, the latest first. -/
inductive Sends (ok : Operation → Prop) : Task → List Event → Request → Prop where
  | asks {task : Task} {es : List Event} {q : Request} (h : q.body = none) : Sends ok task es q
  | counts {task : Task} {es : List Event} (t : Tables) (table : Table) (h : task.IsConnect) :
    Sends ok task es (t.request (.count table))
  | creates {task : Task} {es : List Event} (t : Tables) (table : Table) (h : task.IsConnect) :
    Sends ok task es (t.request (.create table))
  /-- The table of settings was created after it had been found missing. -/
  | seeds {task : Task} {check made : Event} {rest : List Event} (t : Tables) {name value : String}
    (h : task.IsConnect) (hknown : (name, value) ∈ Settings.known)
    (hmade : made.request = t.request (.create .settings))
    (hcheck : check.request = t.request (.count .settings))
    (hmissing : Tables.counted check.reply = .ok false) :
    Sends ok task (made :: check :: rest) (t.request (.storeSetting name value))
  | looks {task : Task} {es : List Event} (t : Tables) : Sends ok task es (t.request .selectVersions)
  | commits (c : Commit) (hs : c.session.Holds ok) : Sends ok c.task [c.look] c.batch.toRequest
  | reads {d : Driver} {name : String} {es : List Event} (t : Tables) :
    Sends ok (.getSetting d name) es (t.request (.selectSetting name))
  | stores {d : Driver} {name value : String} {es : List Event} (t : Tables) :
    Sends ok (.updateSetting d name value) es (t.request (.storeSetting name value))

end Task

/-- The server that a client shares with others, with what it has executed for the client's task. -/
def Server.shared (effect : Server.Effect) (sends : List Event → Request → Prop) : Peer (List Event) where
  admits := sends
  answers es q reply es' :=
    (∃ e : Event, e.Honest effect ∧ e.request = q ∧ e.reply = reply ∧ es' = e :: es) ∨
      q.Passes reply ∧ es' = es

def Driver.OnTables (d : Driver) : Prop := ∃ t, d.tracker = .tables t

section

variable {effect : Server.Effect} {sends : List Event → Request → Prop} {es es' : List Event}
  {reply : Reply}

theorem Server.executed_of_shown {t : Tables} {st : Statement} {r : SqlResult}
    (h : (Server.shared effect sends).answers es (t.request st) reply es')
    (hr : Tables.shown reply = .ok r) :
    ∃ e : Event, e.Honest effect ∧ e.request = t.request st ∧ e.reply = reply ∧ es' = e :: es := by
  rcases h with h | ⟨h | ⟨h, -⟩, -⟩
  · exact h
  · rw [Tables.isAccepted_of_shown hr] at h
    cases h
  · cases h

theorem Capability.always_detect {path : String} {capability : Option Capability}
    (hc : capability ≠ some .datasources) (hasks : ∀ es q, q.body = none → sends es q) :
    (ExceptT.run (Capability.detect path capability)).Always (Server.shared effect sends)
      (fun r _ => ∀ c, r = .ok c → c = .legacy) es := by
  cases capability with
  | some c =>
    intro c' hc'
    cases hc'
    cases c with
    | legacy => rfl
    | datasources => exact absurd rfl hc
  | none =>
    rw [Capability.run_detect]
    refine ⟨hasks _ _ rfl, fun reply es' hr c hc => ?_⟩
    obtain ⟨response, info, rfl, hinfo, rfl⟩ := Capability.told_eq_ok hc
    rcases hr with ⟨e, ⟨v, -, hv, -⟩, hq, -⟩ | ⟨hrefused | ⟨-, response', hresponse, h⟩, -⟩
    · rw [hq] at hv
      cases hv
    · have hs : response.isSuccess = false := hrefused
      simp [Response.decode, Response.checked, hs, bind, Except.bind] at hinfo
    · cases hresponse
      exact h info hinfo

/-- A table is made only after it has been found missing. -/
theorem Tables.always_ensureTable {t : Tables} {table : Table}
    (hcounts : ∀ es, sends es (t.request (.count table)))
    (hcreates : ∀ es, sends es (t.request (.create table))) :
    (ExceptT.run (t.ensureTable table.name table.columns)).Always (Server.shared effect sends)
      (fun r es => r = .ok true → ∃ made check rest, es = made :: check :: rest ∧
        made.request = t.request (.create table) ∧ check.request = t.request (.count table) ∧
        counted check.reply = .ok false) es := by
  rw [run_ensureTable]
  refine ⟨hcounts es, fun reply es₁ hr => ?_⟩
  dsimp only
  cases hcounted : counted reply with
  | error e => simp
  | ok there =>
    cases there with
    | true => simp
    | false =>
      obtain ⟨r, hshown, -⟩ := shown_of_counted hcounted
      obtain ⟨check, -, hcheck, rfl, rfl⟩ := Server.executed_of_shown hr hshown
      refine ⟨hcreates _, fun reply es₂ hr => ?_⟩
      dsimp only
      cases hcreated : created reply with
      | error e => simp [Except.map]
      | ok u =>
        obtain ⟨r, hshown⟩ := shown_of_created hcreated
        obtain ⟨made, -, hmade, rfl, rfl⟩ := Server.executed_of_shown hr hshown
        exact fun _ => ⟨made, check, es, rfl, hmade, hcheck, hcounted⟩

end

namespace Task

variable {effect : Server.Effect} {ok : Operation → Prop} {task : Task}

theorem always_prepare (htask : task.IsConnect) (t : Tables) (es : List Event) :
    (ExceptT.run t.prepare).Always (Server.shared effect (task.Sends ok)) (fun _ _ => True) es := by
  have hensure (table : Table) (es : List Event) :
      (ExceptT.run (t.ensureTable table.name table.columns)).Always
        (Server.shared effect (task.Sends ok)) _ es :=
    Tables.always_ensureTable (fun _ => .counts t table htask) (fun _ => .creates t table htask)
  rw [Tables.run_prepare]
  apply (hensure .migrations es).bind
  intro r es₁ _
  cases r with
  | error e => trivial
  | ok new =>
    apply (hensure .settings es₁).bind
    intro r es₂ hseeds
    cases r with
    | error e => trivial
    | ok new =>
      cases new with
      | false => trivial
      | true =>
        obtain ⟨made, check, rest, rfl, hmade, hcheck, hmissing⟩ := hseeds rfl
        refine ⟨.seeds t htask ?_ hmade hcheck hmissing, fun reply es₃ _ => trivial⟩
        exact List.mem_singleton.2 rfl

theorem always_scan {t : Tables} {d : Driver} (ht : d.tracker = .tables t) (es : List Event) :
    (Driver.scan d).Always (Server.shared effect (task.Sends ok)) (fun r es' => r.2.tracker = .tables t ∧
      r.2.skipConsistencyCheck = d.skipConsistencyCheck ∧
      (r.1 = .ok () → ∃ look entries, es' = look :: es ∧ look.request = t.request .selectVersions ∧
        Tables.listed look.reply = .ok entries ∧
        r.2.applied = .ofList (entries.map Entry.version))) es := by
  obtain ⟨tracker, applied, locked, skip⟩ := d
  obtain rfl := ht
  rw [Driver.scan_tables]
  refine ⟨.looks t, fun reply es' hr => ?_⟩
  rw [Exchange.always_done]
  cases hlisted : Tables.listed reply with
  | error e => exact ⟨rfl, rfl, fun h => by cases h⟩
  | ok entries =>
    obtain ⟨r, hshown⟩ := Tables.shown_of_listed hlisted
    obtain ⟨look, -, hlook, rfl, rfl⟩ := Server.executed_of_shown hr hshown
    exact ⟨rfl, rfl, fun _ => ⟨look, entries, rfl, hlook, hlisted, rfl⟩⟩

theorem always_connect (config : Config) {capability : Option Capability}
    (hc : capability ≠ some .datasources) :
    (Task.connect config capability).exchange.Always
      (Server.shared effect ((Task.connect config capability).Sends ok))
      (fun held _ => ∀ d, held = some d → d.OnTables) [] := by
  have htask : (Task.connect config capability).IsConnect := trivial
  have hattach (es : List Event) :
      (ExceptT.run (Driver.attach (.ofCapability config .legacy) config.skipConsistencyCheck)).Always
        (Server.shared effect ((Task.connect config capability).Sends ok))
        (fun r _ => ∀ d, r = .ok d → d.OnTables) es := by
    apply Driver.always_attach (I := fun d _ => d.OnTables)
    rw [Driver.start, Tracker.ofCapability, Tracker.prepare, Action.bind_apply, Driver.track_tables]
    apply Exchange.always_bind.2
    apply (always_prepare htask _ es).bind
    intro r es' _
    cases r with
    | error e => simp
    | ok u => exact (always_scan rfl es').mono fun r es'' hr _ => ⟨_, hr.1⟩
  have hconnect : (ExceptT.run (Driver.connect config capability)).Always
      (Server.shared effect ((Task.connect config capability).Sends ok))
      (fun r _ => ∀ d, r = .ok d → d.OnTables) [] := by
    rw [Driver.connect, Attempt.run_bind, Attempt.run_within]
    apply Exchange.always_bind.2
    apply (Capability.always_detect hc fun es q hq => .asks hq).bind
    intro r es hr
    cases r with
    | error e => simp
    | ok c =>
      rw [hr c rfl]
      exact hattach es
  apply hconnect.bind
  intro r es hr d hd
  cases r with
  | error e => cases hd
  | ok d' =>
    cases hd
    exact hr d rfl

theorem always_unlock {c : Commit} {d : Driver} (ht : d.tracker = .tables c.tables)
    (hs : c.session.Holds ok) :
    (Driver.unlock c.session d).Always (Server.shared effect (c.task.Sends ok))
      (fun r _ => r.2.OnTables) [c.look] := by
  obtain ⟨tracker, applied, locked, skip⟩ := d
  obtain rfl := ht
  rw [Driver.unlock_apply]
  apply Exchange.always_bind.2
  cases hempty : c.session.isEmpty with
  | true =>
    rw [Driver.commit_of_isEmpty hempty]
    exact ⟨c.tables, rfl⟩
  | false =>
    have hbatches : Driver.commitBatches ⟨.tables c.tables, applied, locked, skip⟩ c.session =
        [c.batch] := rfl
    have hsend : (ExceptT.run (Driver.sendBatches [c.batch])).Always
        (Server.shared effect (c.task.Sends ok)) (fun _ _ => True) [c.look] := by
      rw [Driver.run_sendBatches_cons]
      refine ⟨.commits c hs, fun reply es _ => ?_⟩
      dsimp only
      cases Driver.outcome c.batch reply <;> trivial
    rw [Driver.commit_eq hempty, hbatches]
    apply hsend.bind
    intro r es _
    cases r <;> exact ⟨c.tables, rfl⟩

section

variable {d d' : Driver} {t : FileTree} {source : Source} {target : Target} {options : ApplyOptions}

theorem always_execute {tables : Tables} {look : Event} {entries : List Entry} {plan : Plan}
    (htables : d.tracker = .tables tables) (hlook : look.request = tables.request .selectVersions)
    (hlisted : Tables.listed look.reply = .ok entries)
    (hplan : Plan.build source (.ofList (entries.map Entry.version)) target = .ok plan)
    (hsource : source.StagesOnly t d.skipConsistencyCheck ok) (ht : d'.tracker = .tables tables) :
    (Driver.execute t source options.skipExecution (.start .query d.skipConsistencyCheck) plan d').Always
      (Server.shared effect ((Task.apply d t source target options).Sends ok))
      (fun r _ => r.2.OnTables) [look] := by
  rw [Driver.execute]
  cases hstage : (Session.start .query d.skipConsistencyCheck).stagePlan t source
      options.skipExecution plan with
  | error f => exact ⟨tables, ht⟩
  | ok session =>
    let c : Commit := ⟨d, tables, t, source, target, options, look, entries, plan, session, htables,
      hlook, hlisted, hplan, hstage⟩
    have hunlock : (Driver.unlock c.session d').Always (Server.shared effect (c.task.Sends ok))
        (fun r _ => r.2.OnTables) [c.look] :=
      always_unlock ht (Session.holds_stagePlan hsource (Plan.mem_files_of_build hplan) hstage)
    exact hunlock

theorem always_apply (hd : d.OnTables) (hsource : source.StagesOnly t d.skipConsistencyCheck ok) :
    (Task.apply d t source target options).exchange.Always
      (Server.shared effect ((Task.apply d t source target options).Sends ok))
      (fun held _ => ∀ d, held = some d → d.OnTables) [] := by
  obtain ⟨tables, htables⟩ := hd
  have happly : (Driver.apply t source target options d).Always
      (Server.shared effect ((Task.apply d t source target options).Sends ok))
      (fun r _ => r.2.OnTables) [] := by
    rw [Driver.apply, Action.bind_apply]
    apply (always_scan htables []).bind
    rintro ⟨r, d'⟩ es ⟨ht, hskip, hr⟩
    cases r with
    | error e => exact ⟨tables, ht⟩
    | ok u =>
      obtain ⟨look, entries, rfl, hlook, hlisted, happlied⟩ := hr rfl
      simp only [Action.bind_apply, Action.get_apply, Exchange.done_bind, Action.ofExcept_apply]
      cases hplan : Plan.build source d'.applied target with
      | error e => exact ⟨tables, ht⟩
      | ok plan =>
        simp only [mapError_ok]
        cases plan.isEmpty || options.dryRun with
        | true => exact ⟨tables, ht⟩
        | false =>
          simp only [Bool.false_eq_true, if_false, Action.bind_apply, Driver.lock_apply,
            Exchange.done_bind]
          cases d'.locked with
          | true => exact ⟨tables, ht⟩
          | false =>
            have hstart : Session.start d'.tracker.route d'.skipConsistencyCheck =
                .start .query d.skipConsistencyCheck := by
              rw [ht, hskip]
              rfl
            rw [happlied] at hplan
            simp only [Bool.false_eq_true, if_false, hstart]
            have htracker : ({ d' with locked := true } : Driver).tracker = .tables tables := ht
            apply (always_execute htables hlook hlisted hplan hsource htracker).bind
            rintro ⟨r, d''⟩ es hd''
            cases r <;> exact hd''
  apply happly.bind
  rintro ⟨r, d'⟩ es hd' d'' hd''
  cases hd''
  exact hd'

end

theorem always_getSetting {d : Driver} {name : String} (hd : d.OnTables) :
    (Task.getSetting d name).exchange.Always (Server.shared effect ((Task.getSetting d name).Sends ok))
      (fun held _ => ∀ d, held = some d → d.OnTables) [] := by
  obtain ⟨tracker, applied, locked, skip⟩ := d
  obtain ⟨t, rfl⟩ := hd
  simp only [exchange, Driver.getSetting, Tracker.getSetting, Driver.track_tables, Tables.run_getSetting]
  cases Settings.defaultOf name with
  | error e =>
    intro d hd
    cases hd
    exact ⟨t, rfl⟩
  | ok default =>
    refine ⟨.reads t, fun reply es _ d hd => ?_⟩
    cases hd
    exact ⟨t, rfl⟩

theorem always_updateSetting {d : Driver} {name value : String} (hd : d.OnTables) :
    (Task.updateSetting d name value).exchange.Always
      (Server.shared effect ((Task.updateSetting d name value).Sends ok))
      (fun held _ => ∀ d, held = some d → d.OnTables) [] := by
  obtain ⟨tracker, applied, locked, skip⟩ := d
  obtain ⟨t, rfl⟩ := hd
  simp only [exchange, Driver.updateSetting, Tracker.updateSetting, Driver.track_tables,
    Tables.run_updateSetting]
  cases Settings.defaultOf name with
  | error e =>
    intro d hd
    cases hd
    exact ⟨t, rfl⟩
  | ok default =>
    refine ⟨.stores t, fun reply es _ d hd => ?_⟩
    cases hd
    exact ⟨t, rfl⟩

/-- Whatever becomes of the other clients and of its own requests, a task sends nothing but what it may. -/
theorem always_exchange {held : Option Driver} (hheld : ∀ d, held = some d → d.OnTables)
    (h : task.Begins ok held) :
    task.exchange.Always (Server.shared effect (task.Sends ok))
      (fun held _ => ∀ d, held = some d → d.OnTables) [] := by
  cases task with
  | connect config capability => exact always_connect config h
  | apply d t source target options => exact always_apply (hheld d h.1) h.2
  | getSetting d name => exact always_getSetting (hheld d h)
  | updateSetting d name value => exact always_updateSetting (hheld d h)

end Task

end EngineMigrate
