import EngineMigrate.Proofs.Fleet

/-!
Clients that apply sources to one server at the same time, each from a plan that may be out of date.  Main
statements: the files that take a version up are only run while it is not on record, so that between two
such runs it is removed; the files that take it down are also run when another client has removed it since
the look that the plan was made from, and in no other case while it is not on record.
-/
namespace EngineMigrate

open Json (Value)

namespace Server

variable {effect : Effect} {s s' : Server}

variable (effect) in
/-- Executing the operation leaves the table of versions as it was. -/
def SparesRows (o : Operation) : Prop :=
  ∀ s s', Executes effect o.toJson s s' → s'.migrations = s.migrations

theorem execute_of_executes {st : Statement} (h : Executes effect st.operation.toJson s s') :
    st.execute s = some s' := by
  obtain ⟨st', htext, he⟩ := executes_statement st h
  rwa [Statement.text_injective htext] at he

/-- A version cannot be entered twice. -/
theorem not_rows_of_insert {v : Nat} (h : (Statement.insert v).execute s = some s') : ¬ s.Rows v := by
  obtain ⟨rows, hrows, h⟩ := Option.bind_eq_some_iff.1 h
  split at h
  · cases h
  · rename_i hany
    rintro ⟨row, hrow, hv⟩
    rw [hrows] at hrow
    exact hany (List.any_eq_true.2 ⟨row, hrow, by simp [hv]⟩)

/-- No statement but its own removal takes a version off the record. -/
theorem rows_of_execute {st : Statement} {v : Nat} (h : st.execute s = some s') (hne : st ≠ .delete v)
    (hv : s.Rows v) : s'.Rows v := by
  cases st with
  | count t =>
    cases h
    exact hv
  | create t =>
    cases t with
    | migrations =>
      cases h
      exact hv
    | settings =>
      cases h
      exact hv
  | selectVersions =>
    obtain ⟨rows, -, rfl⟩ := Option.map_eq_some_iff.1 h
    exact hv
  | insert w => exact (rows_insert h v).2 (.inr hv)
  | delete w =>
    refine (rows_delete h v).2 ⟨hv, fun he => hne ?_⟩
    rw [Int.ofNat.inj he]
  | selectSetting name =>
    obtain ⟨rows, -, rfl⟩ := Option.map_eq_some_iff.1 h
    exact hv
  | storeSetting name value =>
    obtain ⟨rows, -, rfl⟩ := Option.map_eq_some_iff.1 h
    exact hv

def changeValue (c : Change) : Value := (Tables.operation (Tables.changeSql c)).toJson

theorem executes_record {v : Nat} {name : Option String}
    (h : Executes effect (changeValue (.record v name)) s s') :
    (Statement.insert v).execute s = some s' := by
  have hsent : Executes effect (Statement.insert v).operation.toJson s s' := h
  exact execute_of_executes hsent

theorem executes_erase {v : Nat} (h : Executes effect (changeValue (.erase v)) s s') :
    (Statement.delete v).execute s = some s' := by
  have hsent : Executes effect (Statement.delete v).operation.toJson s s' := h
  exact execute_of_executes hsent

theorem rows_of_others {cs : List Change} {v : Nat} (h : ExecutesAll effect (cs.map changeValue) s s')
    (hv : ∀ c ∈ cs, c.version ≠ v) : s'.Rows v ↔ s.Rows v := by
  induction cs generalizing s with
  | nil =>
    cases h
    rfl
  | cons c cs ih =>
    obtain _ | ⟨hc, hcs⟩ := h
    obtain ⟨hne, hv⟩ := List.forall_mem_cons.1 hv
    rw [ih hcs hv]
    cases c with
    | record w name =>
      have hw : (v : Int) ≠ w := fun he => hne (Int.ofNat.inj he).symm
      rw [rows_insert (executes_record hc)]
      exact or_iff_right hw
    | erase w =>
      have hw : (v : Int) ≠ w := fun he => hne (Int.ofNat.inj he).symm
      rw [rows_delete (executes_erase hc)]
      exact and_iff_left hw

/-- Among changes of different versions each finds its version as it was and leaves it as it will be. -/
theorem exists_change {cs : List Change} (hn : (cs.map Change.version).Nodup) {c : Change} (hc : c ∈ cs)
    (h : ExecutesAll effect (cs.map changeValue) s s') : ∃ mid mid',
      Executes effect (changeValue c) mid mid' ∧ (mid.Rows c.version ↔ s.Rows c.version) ∧
        (s'.Rows c.version ↔ mid'.Rows c.version) := by
  obtain ⟨front, back, rfl⟩ := List.append_of_mem hc
  rw [List.map_append, List.nodup_append] at hn
  obtain ⟨-, hback, hfront⟩ := hn
  rw [List.map_append] at h
  obtain ⟨mid, hf, h⟩ := executesAll_append h
  obtain _ | ⟨hmid, hb⟩ := h
  refine ⟨mid, _, hmid, rows_of_others hf fun c' hc' => ?_, rows_of_others hb fun c' hc' he => ?_⟩
  · exact hfront _ (List.mem_map_of_mem hc') _ List.mem_cons_self
  · exact (List.nodup_cons.1 hback).1 (he ▸ List.mem_map_of_mem hc')

end Server

theorem Step.version_change (step : Step) : step.change.version = step.version := by
  unfold Step.change
  cases step.direction <;> rfl

namespace Commit

variable {c : Commit} {effect : Server.Effect} {e : Event}

/-- The bulk holds what the files of a version stand for in a direction, in order. -/
def Carries (c : Commit) (dir : Direction) (v : Nat) : Prop :=
  ∃ step ∈ c.plan, step.version = v ∧ step.direction = dir ∧ ∃ front parts back,
    (c.source.filesOf v dir).mapM ((Session.start .query c.driver.skipConsistencyCheck).fileItems
      c.tree c.source) = some parts ∧ c.session.bulk.items = front ++ parts.flatten ++ back

theorem carries_of_mem {step : Step} (hs : step ∈ c.plan) (h : c.options.skipExecution = false) :
    c.Carries step.direction step.version := by
  obtain ⟨parts, hparts, hitems⟩ := Session.items_stagePlan c.staged
  obtain ⟨front, back, hplan⟩ := List.append_of_mem hs
  rw [h, hplan] at hparts
  simp only [Bool.false_eq_true, if_false, List.flatMap_append, List.flatMap_cons, List.mapM_append,
    Option.bind_eq_bind, Option.bind_eq_some_iff, Option.pure_def, Option.some.injEq] at hparts
  obtain ⟨parts₁, -, _, ⟨parts₂, hstep, parts₃, -, rfl⟩, rfl⟩ := hparts
  have hfiles := (Plan.sourced_of_build c.planned step hs).1
  rw [hfiles] at hstep
  refine ⟨step, hs, rfl, rfl, parts₁.flatten, parts₂, parts₃.flatten, hstep, ?_⟩
  rw [hitems]
  simp [Session.start, Bulk.empty]

theorem nodup_changes (c : Commit) : ((c.plan.map Step.change).map Change.version).Nodup := by
  have hversions : (c.plan.map Step.change).map Change.version = c.plan.map Step.version := by
    simp [Step.version_change]
  rw [hversions]
  exact Plan.nodup_of_build c.planned

section

variable (he : e.Honest effect) (hq : e.request = c.batch.toRequest)
  (hs : c.session.Holds (Server.SparesRows effect))
include he hq hs

/-- The files leave the versions on record alone, and behind them each step is recorded. -/
theorem exists_records : ∃ mid, mid.migrations = e.before.migrations ∧
    Server.ExecutesAll effect ((c.plan.map Step.change).map Server.changeValue) mid e.after := by
  have hbulk := he.batch hq
  simp only [batch, Bulk.operations, Tables.items_stage, List.map_append, List.map_map] at hbulk
  rw [← List.map_map] at hbulk
  obtain ⟨mid, hfiles, hrecords⟩ := Server.executesAll_append hbulk
  refine ⟨mid, hfiles.keeps (f := Server.migrations) fun o ho => ?_, ?_⟩
  · obtain ⟨x, hx, rfl⟩ := List.mem_map.1 ho
    exact hs x hx
  · rw [← c.changes_eq]
    exact hrecords

theorem rows_of_step {step : Step} (hstep : step ∈ c.plan) : ∃ mid mid',
    Server.Executes effect (Server.changeValue step.change) mid mid' ∧
      (mid.Rows step.version ↔ e.before.Rows step.version) ∧
      (e.after.Rows step.version ↔ mid'.Rows step.version) := by
  obtain ⟨start, hstart, hrecords⟩ := exists_records he hq hs
  obtain ⟨mid, mid', hmid, hbefore, hafter⟩ :=
    Server.exists_change c.nodup_changes (List.mem_map_of_mem hstep) hrecords
  rw [step.version_change] at hbefore hafter
  refine ⟨mid, mid', hmid, hbefore.trans ?_, hafter⟩
  rw [Server.Rows, hstart, Server.Rows]

theorem rows_of_up {step : Step} (hstep : step ∈ c.plan) (hd : step.direction = .up) :
    ¬ e.before.Rows step.version ∧ e.after.Rows step.version := by
  obtain ⟨mid, mid', hmid, hbefore, hafter⟩ := rows_of_step he hq hs hstep
  simp only [Step.change, hd] at hmid
  have hinsert := Server.executes_record hmid
  rw [← hbefore, hafter]
  exact ⟨Server.not_rows_of_insert hinsert, (Server.rows_insert hinsert _).2 (.inl rfl)⟩

theorem rows_of_down {step : Step} (hstep : step ∈ c.plan) (hd : step.direction = .down) :
    ¬ e.after.Rows step.version := by
  obtain ⟨mid, mid', hmid, -, hafter⟩ := rows_of_step he hq hs hstep
  simp only [Step.change, hd] at hmid
  rw [hafter, Server.rows_delete (Server.executes_erase hmid)]
  exact fun h => h.2 rfl

theorem exists_down {v : Nat} (hbefore : e.before.Rows v) (hafter : ¬ e.after.Rows v) :
    ∃ step ∈ c.plan, step.version = v ∧ step.direction = .down := by
  by_cases hv : ∃ step ∈ c.plan, step.version = v
  · obtain ⟨step, hstep, rfl⟩ := hv
    refine ⟨step, hstep, rfl, ?_⟩
    cases hd : step.direction with
    | down => rfl
    | up => exact absurd (rows_of_up he hq hs hstep hd).2 hafter
  · obtain ⟨mid, hmid, hrecords⟩ := exists_records he hq hs
    have hothers : ∀ change ∈ c.plan.map Step.change, change.version ≠ v := by
      intro change hchange hversion
      obtain ⟨step, hstep, rfl⟩ := List.mem_map.1 hchange
      exact hv ⟨step, hstep, step.version_change.symm.trans hversion⟩
    refine absurd ((Server.rows_of_others hrecords hothers).2 ?_) hafter
    rw [Server.Rows, hmid]
    exact hbefore

end

/-- A version that is rolled back was listed by the look. -/
theorem rows_of_look (c : Commit) (hlook : c.look.Honest effect) {step : Step} (hstep : step ∈ c.plan)
    (hd : step.direction = .down) : c.look.after.Rows step.version := by
  obtain ⟨down, up, hplan, hdown, hup, hdowns, -⟩ := Plan.build_eq_ok c.planned
  obtain ⟨hversions, -⟩ := Plan.steps_eq_ok hdown
  obtain ⟨-, hups⟩ := Plan.steps_eq_ok hup
  have hmem : step ∈ down := by
    rw [hplan] at hstep
    rcases List.mem_append.1 hstep with h | h
    · exact h
    · rw [(hups step h).1] at hd
      cases hd
  have happlied := hdowns _ (hversions ▸ List.mem_map_of_mem hmem)
  rw [VersionSet.mem_ofList] at happlied
  obtain ⟨entry, hentry, hv⟩ := List.mem_map.1 happlied
  exact (hlook.rows_of_listed c.look_request c.listed _).1 ⟨entry, hentry, congrArg Int.ofNat hv⟩

end Commit

namespace Commit

theorem eq_of_look {c c' : Commit} (htask : c'.task = c.task) (hlook : c'.look = c.look) : c' = c := by
  obtain ⟨d, tables, t, source, target, options, look, entries, plan, session, ht, hq, hl, hp, hs⟩ := c
  obtain ⟨d', tables', t', source', target', options', look', entries', plan', session', ht', hq', hl',
    hp', hs'⟩ := c'
  obtain ⟨rfl, rfl, rfl, rfl, rfl⟩ := Task.apply.inj htask
  obtain rfl : look' = look := hlook
  obtain rfl := Tracker.tables.inj (ht'.symm.trans ht)
  obtain rfl := Except.ok.inj (hl'.symm.trans hl)
  obtain rfl := Except.ok.inj (hp'.symm.trans hp)
  obtain rfl := Except.ok.inj (hs'.symm.trans hs)
  rfl

end Commit

theorem Batch.toRequest_ne (b : Batch) (t : Tables) (st : Statement) : b.toRequest ≠ t.request st := by
  intro h
  have hbody : b.request = st.operation.toJson := Option.some.inj (congrArg Request.body h)
  have htype : b.request.get? "type" = some (.string "bulk") := get?_type_bulk _ _
  rw [hbody, st.get?_type] at htype
  exact absurd htype (by simp)

/-- Nothing but a commit sends a bulk. -/
theorem Task.Sends.exists_commit_of_batch {ok : Operation → Prop} {task : Task} {es : List Event} {b : Batch}
    (h : task.Sends ok es b.toRequest) : ∃ c : Commit, task = c.task ∧ es = [c.look] ∧
      b.toRequest = c.batch.toRequest ∧ c.session.Holds ok := by
  generalize hq : b.toRequest = q at h
  cases h with
  | asks hbody =>
    rw [← hq] at hbody
    cases hbody
  | counts t table _ => exact absurd hq (b.toRequest_ne t _)
  | creates t table _ => exact absurd hq (b.toRequest_ne t _)
  | seeds t _ _ _ _ _ => exact absurd hq (b.toRequest_ne t _)
  | looks t => exact absurd hq (b.toRequest_ne t _)
  | commits c hs => exact ⟨c, rfl, rfl, rfl, hs⟩
  | reads t => exact absurd hq (b.toRequest_ne t _)
  | stores t => exact absurd hq (b.toRequest_ne t _)

theorem Commit.holds_of_sends {c : Commit} {ok : Operation → Prop} {task : Task} {es : List Event}
    {q : Request} (h : task.Sends ok es q) (htask : task = c.task) (hes : es = [c.look])
    (hq : q = c.batch.toRequest) : c.session.Holds ok := by
  rw [hq] at h
  obtain ⟨c', htask', hes', -, hs⟩ := h.exists_commit_of_batch
  have hsame : c = c' := eq_of_look (htask.symm.trans htask') (List.cons.inj (hes.symm.trans hes')).1
  rw [hsame]
  exact hs

theorem Task.Sends.exists_commit {effect : Server.Effect} {task : Task} {es : List Event} {e : Event}
    {v : Nat} (h : task.Sends (Server.SparesRows effect) es e.request) (he : e.Honest effect)
    (hbefore : e.before.Rows v) (hafter : ¬ e.after.Rows v) : ∃ c : Commit, task = c.task ∧
      es = [c.look] ∧ e.request = c.batch.toRequest ∧
        ∃ step ∈ c.plan, step.version = v ∧ step.direction = .down := by
  have hkept {t : Tables} {st : Statement} (hq : e.request = t.request st) (hne : st ≠ .delete v) : False :=
    hafter (Server.rows_of_execute (he.statement hq).1 hne hbefore)
  generalize hq : e.request = q at h
  cases h with
  | asks hbody =>
    obtain ⟨v, -, hv, -⟩ := he
    rw [hq, hbody] at hv
    cases hv
  | counts t table _ => exact (hkept hq nofun).elim
  | creates t table _ => exact (hkept hq nofun).elim
  | seeds t _ _ _ _ _ => exact (hkept hq nofun).elim
  | looks t => exact (hkept hq nofun).elim
  | commits c hs => exact ⟨c, rfl, rfl, rfl, c.exists_down he hq hs hbefore hafter⟩
  | reads t => exact (hkept hq nofun).elim
  | stores t => exact (hkept hq nofun).elim

namespace Execution

variable {ι : Type} {x : Execution ι} {effect : Server.Effect} {v : Nat}

/-- The commit that a client comes to make at its task was executed. -/
def Commits (x : Execution ι) (c : Commit) : Prop :=
  x.task = c.task ∧ x.earlier = [c.look] ∧ x.request = c.batch.toRequest

/-- A bulk was executed that holds the files of a version in a direction. -/
def Runs (dir : Direction) (v : Nat) (x : Execution ι) : Prop := ∃ c, x.Commits c ∧ c.Carries dir v

/-- A version was rolled back, which was on record and is no more. -/
def Removes (v : Nat) (x : Execution ι) : Prop :=
  (∃ c, x.Commits c ∧ ∃ step ∈ c.plan, step.version = v ∧ step.direction = .down) ∧
    x.before.Rows v ∧ ¬ x.after.Rows v

theorem rows_of_runs_up (he : x.Honest effect)
    (hs : x.task.Sends (Server.SparesRows effect) x.earlier x.request) (hx : x.Runs .up v) :
    ¬ x.before.Rows v ∧ x.after.Rows v := by
  obtain ⟨c, ⟨htask, hes, hq⟩, step, hstep, rfl, hd, -⟩ := hx
  exact c.rows_of_up he hq (c.holds_of_sends hs htask hes hq) hstep hd

theorem removes_of_rows (he : x.Honest effect)
    (hs : x.task.Sends (Server.SparesRows effect) x.earlier x.request) (hbefore : x.before.Rows v)
    (hafter : ¬ x.after.Rows v) : x.Removes v := by
  obtain ⟨c, htask, hes, hq, hstep⟩ := hs.exists_commit he hbefore hafter
  exact ⟨⟨c, ⟨htask, hes, hq⟩, hstep⟩, hbefore, hafter⟩

end Execution

namespace Fleet

variable {ι : Type} [DecidableEq ι] {effect : Server.Effect} {n₀ n : Fleet ι}

/-- Every bulk that is executed is the commit of a client that applies a source, and runs the files of each
step of its plan, unless the plan is only to be recorded. -/
theorem exists_commit {ok : Operation → Prop} (h₀ : n₀.Initial) (h : Reachable effect ok n₀ n) :
    ∀ x ∈ n.history, ∀ b : Batch, x.request = b.toRequest → ∃ c, x.Commits c ∧
      (c.options.skipExecution = false → ∀ step ∈ c.plan, x.Runs step.direction step.version) := by
  intro x hx b hb
  have hsends := ((h.consistent h₀).past.of_mem hx).2
  rw [hb] at hsends
  obtain ⟨c, htask, hes, hq, -⟩ := hsends.exists_commit_of_batch
  have hcommits : x.Commits c := ⟨htask, hes, hb.trans hq⟩
  exact ⟨c, hcommits, fun hskip step hstep => ⟨c, hcommits, c.carries_of_mem hstep hskip⟩⟩

/-- Between two points of a history at the first of which a version was on record and at the second not,
it was removed. -/
theorem exists_removes {s : Server} {between rest : List (Execution ι)} {y : Execution ι} {v : Nat}
    (h : Past effect (Server.SparesRows effect) (between ++ y :: rest) s) (hy : y.after.Rows v)
    (hs : ¬ s.Rows v) : ∃ z ∈ between, z.Removes v := by
  obtain ⟨z, hz, hbefore, hafter⟩ := h.exists_end (P := fun s => s.Rows v) hy hs
  obtain ⟨he, hsends⟩ := h.of_mem (List.mem_append_left _ hz)
  exact ⟨z, hz, z.removes_of_rows he hsends hbefore hafter⟩

end Fleet

/-! Two clients that go the same way with the one migration of a source. -/

namespace Server

theorem ne_of_short {sql : String} (h : sql.toList.length < 25) :
    (∀ st : Statement, (Tables.operation sql).toJson ≠ st.operation.toJson) ∧
      (Tables.operation sql).toJson ≠ LedgerStore.readOperation.toJson ∧
      cliWrite? (Tables.operation sql).toJson = none := by
  have htype : (Tables.operation sql).toJson.get? "type" = some (.string "run_sql") :=
    Operation.get?_toJson_plain "run_sql" _ "type"
  have hargs : (Tables.operation sql).toJson.get? "args" = some (SqlArgs.ofSql sql).toJson :=
    Operation.get?_toJson_plain "run_sql" _ "args"
  refine ⟨fun st he => ?_, fun he => ?_, cliWrite?_eq_none htype (by decide)⟩
  · have hsql := st.get?_sql
    rw [← he, hargs] at hsql
    have htext : sql = st.text := Value.string.inj (Option.some.inj hsql)
    have hlength := st.begins_text.length_le
    rw [st.length_head, ← htext] at hlength
    omega
  · rw [he, LedgerStore.get?_type_read] at htype
    exact absurd htype (by simp)

theorem sparesRows_of_short {sql : String} (h : sql.toList.length < 25) :
    SparesRows Driver.untouching (Tables.operation sql) := by
  obtain ⟨hst, hread, hwrite⟩ := ne_of_short h
  intro s s' he
  cases he with
  | statement st hv _ => exact absurd hv (hst st)
  | read hv _ => exact absurd hv hread
  | write w hv _ _ _ =>
    rw [hwrite] at hv
    cases hv
  | other _ _ _ he =>
    obtain rfl : s' = s := he
    rfl

end Server

/-- The migration doubles what is stored, so that it matters how often it is run. -/
def scalingSql : Direction → String
  | .up => "UPDATE t SET n = n * 2"
  | .down => "UPDATE t SET n = n / 2"

def scalingName : Direction → String
  | .up => "1_a.up.sql"
  | .down => "1_a.down.sql"

def scalingFile (dir : Direction) : MigrationFile := ⟨1, "a", dir, .sql, [scalingName dir]⟩

def scalingSource : Source := ⟨"migrations", [scalingFile .down, scalingFile .up]⟩

def scalingTree : FileTree :=
  ⟨[], [(["migrations"], .directory),
    (["migrations", scalingName .down], .file (scalingSql .down).toUTF8),
    (["migrations", scalingName .up], .file (scalingSql .up).toUTF8)]⟩

def scalingItem (dir : Direction) : Staged := ⟨Tables.operation (scalingSql dir), some (scalingName dir)⟩

def scalingStep (dir : Direction) : Step := ⟨1, some "a", dir, [scalingFile dir]⟩

def scalingSession (dir : Direction) : Session :=
  ⟨⟨[scalingItem dir]⟩, [(scalingStep dir).change], .query, false⟩

theorem read_scalingFile (dir : Direction) :
    scalingSource.read scalingTree (scalingFile dir) = .ok (scalingSql dir) := by
  cases dir <;> rfl

theorem operations_scalingFile (dir : Direction) :
    (Session.start .query false).operations (scalingFile dir).kind (scalingSql dir) =
      .ok [Tables.operation (scalingSql dir)] := by
  have hsql : Text.allBlank (scalingSql dir) = false := by cases dir <;> rfl
  simp only [scalingFile, Session.operations, hsql, Bool.false_eq_true, if_false]
  rfl

theorem fileItems_scalingFile (dir : Direction) :
    (Session.start .query false).fileItems scalingTree scalingSource (scalingFile dir) =
      some [scalingItem dir] := by
  simp only [Session.fileItems, read_scalingFile, operations_scalingFile]
  rfl

theorem stagesOnly_scalingSource :
    scalingSource.StagesOnly scalingTree false (Server.SparesRows Driver.untouching) := by
  intro f hf items hitems x hx
  obtain ⟨dir, rfl⟩ : ∃ dir, f = scalingFile dir := by
    rcases List.mem_cons.1 hf with rfl | hf
    · exact ⟨_, rfl⟩
    · exact ⟨_, List.mem_singleton.1 hf⟩
  rw [fileItems_scalingFile] at hitems
  cases hitems
  rw [List.mem_singleton.1 hx]
  exact Server.sparesRows_of_short (by cases dir <;> decide)

theorem stagePlan_scalingStep (dir : Direction) :
    (Session.start .query false).stagePlan scalingTree scalingSource false [scalingStep dir] =
      .ok (scalingSession dir) := by
  have hfiles : (scalingStep dir).files = [scalingFile dir] := rfl
  simp only [Session.stagePlan_cons, hfiles, Bool.false_eq_true, if_false, Session.runFiles,
    read_scalingFile, Session.run, operations_scalingFile]
  rfl

theorem Server.ordered_none (ms : Json.Members) (h : (none : Option Value) = some (.object ms)) :
    ms.Sorted := by
  cases h

def Server.ofTables (migrations : Option (List Row)) (settings : Option (List (String × String))) :
    Server where
  migrations := migrations
  settings := settings
  cliState := none
  ordered := Server.ordered_none

def recording (rows : List Row) : Server := .ofTables (some rows) none

theorem not_rows_recording_nil (i : Int) : ¬ (recording []).Rows i := by
  simp [recording, Server.Rows, Server.ofTables]

def scalingRows : Direction → List Row
  | .up => []
  | .down => [⟨1, false⟩]

def scalingEntries : Direction → List Entry
  | .up => []
  | .down => [⟨1, none, false⟩]

def scalingBody : Direction → ByteArray
  | .up => "\x7b\"result_type\":\"TuplesOk\",\"result\":[[\"version\",\"dirty\"]]\x7d".toUTF8
  | .down => Driver.rowBody

def defaultTables : Tables := ⟨Config.default.paths.query⟩

def scalingLook (dir : Direction) : Event where
  request := defaultTables.request .selectVersions
  reply := .ok ⟨200, scalingBody dir⟩
  before := recording (scalingRows dir)
  after := recording (scalingRows dir)

theorem result_scalingBody (dir : Direction) : SqlResult.ofBytes? (scalingBody dir) =
    some ⟨"TuplesOk", some ([some "version", some "dirty"] :: (scalingRows dir).map Row.cells)⟩ := by
  cases dir with
  | up => decide +kernel
  | down => exact Driver.result_rowBody

theorem honest_scalingLook (dir : Direction) : (scalingLook dir).Honest Driver.untouching := by
  refine ⟨_, ⟨200, scalingBody dir⟩, rfl, rfl, ?_, .inl rfl⟩
  exact .statement .selectVersions _ rfl rfl (result_scalingBody dir) ⟨_, .refl _, rfl⟩

theorem listed_scalingLook (dir : Direction) :
    Tables.listed (scalingLook dir).reply = .ok (scalingEntries dir) := by
  rw [scalingLook, Tables.listed_of_body (result_scalingBody dir) rfl]
  cases dir <;> rfl

def scalingCommit (dir : Direction) : Commit where
  driver := Driver.rowDriver
  tables := defaultTables
  tree := scalingTree
  source := scalingSource
  target := .only 1 dir
  options := ⟨false, false⟩
  look := scalingLook dir
  entries := scalingEntries dir
  plan := [scalingStep dir]
  session := scalingSession dir
  tracker_eq := rfl
  look_request := rfl
  listed := listed_scalingLook dir
  planned := by cases dir <;> decide +kernel
  staged := stagePlan_scalingStep dir

theorem carries_scalingCommit (dir : Direction) : (scalingCommit dir).Carries dir 1 := by
  have hstep : scalingStep dir ∈ (scalingCommit dir).plan := List.mem_cons_self
  exact Commit.carries_of_mem hstep rfl

def scalingRun (dir : Direction) (rows rows' : List Row) : Event where
  request := (scalingCommit dir).batch.toRequest
  reply := .ok ⟨200, Driver.rowBody⟩
  before := recording rows
  after := recording rows'

theorem honest_scalingRun {dir : Direction} {rows rows' : List Row}
    (h : Server.Executes Driver.untouching (Server.changeValue (scalingStep dir).change)
      (recording rows) (recording rows')) : (scalingRun dir rows rows').Honest Driver.untouching := by
  have hshort : (scalingSql dir).toList.length < 25 := by cases dir <;> decide
  obtain ⟨hst, hread, hwrite⟩ := Server.ne_of_short hshort
  refine ⟨_, ⟨200, Driver.rowBody⟩, rfl, rfl, ?_, .inl rfl⟩
  refine .bulk _ (bulkItems?_request _ none) (.cons (.other hst hread hwrite rfl) (.cons h (.nil _)))

theorem exchange_scalingCommit (dir : Direction) : ∃ next,
    (scalingCommit dir).task.exchange = .send (scalingLook dir).request next ∧ ∃ next',
      next (scalingLook dir).reply = .send (scalingCommit dir).batch.toRequest next' := by
  have hplan := (scalingCommit dir).planned
  simp only [scalingCommit] at hplan
  have hstart : Session.start (Tracker.tables defaultTables).route false = .start .query false := rfl
  have hsession : (scalingSession dir).isEmpty = false := rfl
  have hbatches (applied : VersionSet) :
      Driver.commitBatches ⟨.tables defaultTables, applied, true, false⟩ (scalingSession dir) =
        [(scalingCommit dir).batch] := rfl
  have hrow : Driver.rowDriver = ⟨.tables defaultTables, .empty, false, false⟩ := rfl
  have hreply : (scalingLook dir).reply = .ok ⟨200, scalingBody dir⟩ := rfl
  have hlisted := listed_scalingLook dir
  rw [hreply] at hlisted
  simp only [Commit.task, Task.exchange, scalingCommit, Driver.apply, Action.bind_apply, hrow,
    Driver.scan_tables, Exchange.send_bind, Exchange.done_bind]
  refine ⟨_, rfl, ?_⟩
  simp only [hreply, hlisted, Action.get_apply, Exchange.done_bind, Action.ofExcept_apply, hplan,
    mapError_ok, List.isEmpty_cons, Bool.or_false, Bool.false_eq_true, if_false, Action.bind_apply,
    Driver.lock_apply, hstart, Driver.execute, stagePlan_scalingStep, Driver.unlock_apply,
    Driver.commit_eq hsession, Driver.check, hbatches, Driver.run_sendBatches_cons, Exchange.send_bind]
  exact ⟨_, rfl⟩

theorem goes_scalingLook (dir : Direction) : ∃ next,
    (scalingCommit dir).task.exchange.Goes Driver.untouching (recording (scalingRows dir))
      [scalingLook dir] (.send (scalingCommit dir).batch.toRequest next) (recording (scalingRows dir)) := by
  obtain ⟨next, hsend, next', hnext⟩ := exchange_scalingCommit dir
  rw [hsend]
  refine ⟨next', .event (e := scalingLook dir) (honest_scalingLook dir) ?_⟩
  rw [hnext]
  exact .stays _ _

def scalingFleet (dir : Direction) : Fleet Bool :=
  ⟨recording (scalingRows dir), fun _ => .idle (some Driver.rowDriver), []⟩

theorem initial_scalingFleet (dir : Direction) : (scalingFleet dir).Initial := by
  refine ⟨fun i => ⟨_, rfl, fun d hd => ?_⟩, rfl⟩
  cases hd
  exact ⟨defaultTables, rfl⟩

/-- What a client executes, behind the look of its task or at first. -/
def scalingExecution (dir : Direction) (client : Bool) (earlier : List Event) (e : Event) : Execution Bool :=
  ⟨e, client, (scalingCommit dir).task, earlier⟩

def scalingLooks (dir : Direction) : List (Execution Bool) :=
  [scalingExecution dir false [] (scalingLook dir), scalingExecution dir true [] (scalingLook dir)]

theorem reachable_scalingLooks (dir : Direction) : ∃ next worker,
    Fleet.Reachable Driver.untouching (Server.SparesRows Driver.untouching) (scalingFleet dir)
      ⟨recording (scalingRows dir), worker, scalingLooks dir⟩ ∧
    ∀ i, worker i = .busy (scalingCommit dir).task [scalingLook dir]
      (.send (scalingCommit dir).batch.toRequest next) := by
  obtain ⟨next, hgoes⟩ := goes_scalingLook dir
  have hbegins : (scalingCommit dir).task.Begins (Server.SparesRows Driver.untouching)
      (some Driver.rowDriver) := ⟨rfl, stagesOnly_scalingSource⟩
  have hstart : Fleet.Reachable Driver.untouching (Server.SparesRows Driver.untouching) (scalingFleet dir)
      (scalingFleet dir) := .start
  have hone := hstart.begins (i := true) rfl hbegins hgoes
  have htwo := hone.begins (i := false) (by simp [scalingFleet]) hbegins hgoes
  refine ⟨next, _, htwo, fun i => ?_⟩
  cases i <;> simp

theorem executes_record_scaling : Server.Executes Driver.untouching
    (Server.changeValue (scalingStep .up).change) (recording []) (recording [⟨1, false⟩]) :=
  .statement (.insert 1) rfl rfl

theorem executes_erase_scaling (rows : List Row) (h : rows.filter (·.version != 1) = []) :
    Server.Executes Driver.untouching (Server.changeValue (scalingStep .down).change) (recording rows)
      (recording []) :=
  .statement (.delete 1) rfl (by rw [← h]; rfl)

theorem reachable_scalingRun {dir : Direction} {rows : List Row}
    (he : (scalingRun dir (scalingRows dir) rows).Honest Driver.untouching) : ∃ next worker,
    Fleet.Reachable Driver.untouching (Server.SparesRows Driver.untouching) (scalingFleet dir)
      ⟨recording rows, worker, scalingExecution dir true [scalingLook dir]
        (scalingRun dir (scalingRows dir) rows) :: scalingLooks dir⟩ ∧
    worker false = .busy (scalingCommit dir).task [scalingLook dir]
      (.send (scalingCommit dir).batch.toRequest next) := by
  obtain ⟨next, worker, h, hworker⟩ := reachable_scalingLooks dir
  have hstep := h.step (.executes true (scalingRun dir (scalingRows dir) rows) (hworker true) rfl he)
  refine ⟨next, _, hstep, ?_⟩
  simp [hworker]

theorem reachable_scalingRuns {dir : Direction} {rows rows' : List Row}
    (he : (scalingRun dir (scalingRows dir) rows).Honest Driver.untouching)
    (he' : (scalingRun dir rows rows').Honest Driver.untouching) : ∃ worker,
    Fleet.Reachable Driver.untouching (Server.SparesRows Driver.untouching) (scalingFleet dir)
      ⟨recording rows', worker, scalingExecution dir false [scalingLook dir] (scalingRun dir rows rows') ::
        scalingExecution dir true [scalingLook dir] (scalingRun dir (scalingRows dir) rows) ::
          scalingLooks dir⟩ := by
  obtain ⟨next, worker, h, hworker⟩ := reachable_scalingRun he
  exact ⟨_, h.step (.executes false (scalingRun dir rows rows') hworker rfl he')⟩

theorem runs_scalingRun (dir : Direction) (client : Bool) (rows rows' : List Row) :
    (scalingExecution dir client [scalingLook dir] (scalingRun dir rows rows')).Runs dir 1 :=
  ⟨scalingCommit dir, ⟨rfl, rfl, rfl⟩, carries_scalingCommit dir⟩

namespace Fleet

variable {ι : Type} [DecidableEq ι] {effect : Server.Effect} {n₀ n : Fleet ι}

/-- However the clients come in between each other, a bulk that holds the files that take a version up is
executed only if the version is not on record, and then it is.  So between two of them it is removed. -/
theorem runs_up_once (h₀ : n₀.Initial) (h : Reachable effect (Server.SparesRows effect) n₀ n) (v : Nat) :
    (∀ x ∈ n.history, x.Runs .up v → ¬ x.before.Rows v ∧ x.after.Rows v) ∧
    ∀ later x between y earlier, n.history = later ++ x :: (between ++ y :: earlier) →
      x.Runs .up v → y.Runs .up v → ∃ z ∈ between, z.Removes v := by
  have hpast := (h.consistent h₀).past
  have honce : ∀ x ∈ n.history, x.Runs .up v → ¬ x.before.Rows v ∧ x.after.Rows v := by
    intro x hx hup
    obtain ⟨he, hs⟩ := hpast.of_mem hx
    exact x.rows_of_runs_up he hs hup
  refine ⟨honce, fun later x between y earlier hhistory hx hy => ?_⟩
  have hbefore := (honce x (by simp [hhistory]) hx).1
  have hafter := (honce y (by simp [hhistory]) hy).2
  rw [hhistory] at hpast
  cases hpast.of_append with
  | step hrest _ _ _ => exact exists_removes hrest hafter hbefore

/-- Two clients have looked, and one runs the file that they both found pending. -/
theorem runs_up_once_scaling : ∃ n x, (scalingFleet .up).Initial ∧
    Reachable Driver.untouching (Server.SparesRows Driver.untouching) (scalingFleet .up) n ∧
    x ∈ n.history ∧ x.Runs .up 1 ∧ ¬ x.before.Rows 1 ∧ x.after.Rows 1 := by
  have he := honest_scalingRun executes_record_scaling
  obtain ⟨next, worker, h, -⟩ := reachable_scalingRun he
  have h₀ := initial_scalingFleet .up
  have hup := runs_scalingRun .up true [] [⟨1, false⟩]
  exact ⟨_, _, h₀, h, List.mem_cons_self, hup,
    (runs_up_once h₀ h 1).1 _ List.mem_cons_self hup⟩

/-- Every bulk that holds the files that take a version down is executed behind a look of the same client,
with nothing of that client in between, at which the version was on record.  Afterwards it is not, and if it
was not any more before, another client has removed it since the look. -/
theorem runs_down_since_look (h₀ : n₀.Initial)
    (h : Reachable effect (Server.SparesRows effect) n₀ n) (v : Nat) :
    ∀ later x earlier, n.history = later ++ x :: earlier → x.Runs .down v →
      ¬ x.after.Rows v ∧ ∃ between look rest, earlier = between ++ look :: rest ∧
        look.client = x.client ∧ x.earlier = [look.toEvent] ∧ look.after.Rows v ∧
        (∀ y ∈ between, y.client ≠ x.client) ∧
        (¬ x.before.Rows v → ∃ y ∈ between, y.Removes v) := by
  intro later x earlier hhistory hx
  have hpast := (h.consistent h₀).past
  rw [hhistory] at hpast
  cases hpast.of_append with
  | step hrest he hs hown =>
    obtain ⟨c, ⟨htask, hes, hq⟩, step, hstep, rfl, hd, -⟩ := hx
    obtain ⟨own, hown⟩ := hown
    rw [hes] at hown
    obtain ⟨between, look, rest, rfl, hclient, hlook, hne, -⟩ := exists_of_ownEvents_eq_cons hown.symm
    have hhonest := (hrest.of_mem (x := look) (by simp)).1
    rw [hlook] at hhonest
    have hrows := c.rows_of_look hhonest hstep hd
    have hafter := c.rows_of_down he hq (c.holds_of_sends hs htask hes hq) hstep hd
    rw [← hlook] at hrows hes
    exact ⟨hafter, between, look, rest, rfl, hclient, hes, hrows, hne,
      fun hbefore => exists_removes hrest hrows hbefore⟩

/-- Both clients have found the version on record and roll it back; the second of them runs the file against
a database in which that was done already. -/
theorem runs_down_twice : ∃ (n : Fleet Bool) (x y : Execution Bool) (earlier : List (Execution Bool)),
    (scalingFleet .down).Initial ∧
    Reachable Driver.untouching (Server.SparesRows Driver.untouching) (scalingFleet .down) n ∧
    n.history = x :: y :: earlier ∧ x.client ≠ y.client ∧ x.Runs .down 1 ∧ y.Runs .down 1 ∧
    ¬ x.before.Rows 1 := by
  have he := honest_scalingRun (executes_erase_scaling [⟨1, false⟩] rfl)
  have he' := honest_scalingRun (executes_erase_scaling [] rfl)
  obtain ⟨worker, h⟩ := reachable_scalingRuns he he'
  exact ⟨_, _, _, _, initial_scalingFleet .down, h, rfl, by simp [scalingExecution],
    runs_scalingRun .down _ _ _, runs_scalingRun .down _ _ _, not_rows_recording_nil 1⟩

/-- There the first of them has removed the version since the look of the second. -/
theorem runs_down_since_look_scaling : ∃ (n : Fleet Bool) (x : Execution Bool)
    (earlier : List (Execution Bool)), (scalingFleet .down).Initial ∧
    Reachable Driver.untouching (Server.SparesRows Driver.untouching) (scalingFleet .down) n ∧
    n.history = x :: earlier ∧ x.Runs .down 1 ∧ ¬ x.before.Rows 1 ∧ ∃ y ∈ earlier, y.Removes 1 := by
  have he := honest_scalingRun (executes_erase_scaling [⟨1, false⟩] rfl)
  have he' := honest_scalingRun (executes_erase_scaling [] rfl)
  obtain ⟨worker, h⟩ := reachable_scalingRuns he he'
  have h₀ := initial_scalingFleet .down
  have hdown := runs_scalingRun .down false [] []
  have hbefore := not_rows_recording_nil 1
  obtain ⟨-, between, look, rest, hearlier, -, -, -, -, hremoved⟩ :=
    runs_down_since_look h₀ h 1 [] _ _ rfl hdown
  obtain ⟨y, hy, hremoves⟩ := hremoved hbefore
  refine ⟨_, _, _, h₀, h, rfl, hdown, hbefore, y, ?_, hremoves⟩
  rw [hearlier]
  exact List.mem_append_left _ hy

end Fleet

end EngineMigrate
