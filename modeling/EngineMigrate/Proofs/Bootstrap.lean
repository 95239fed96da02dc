import EngineMigrate.Proofs.PlanRaces

/-!
Drivers that are opened while other clients store settings.  Main statement: opening a driver leaves every
stored setting alone but in one case: it has found the table of settings missing, another client has stored
the setting since, and then the default is put in place of what that client stored.
-/
namespace EngineMigrate

namespace Server

variable {s s' : Server}

def setting? (s : Server) (name : String) : Option String :=
  ((s.settings.getD []).find? (·.1 == name)).map Prod.snd

theorem find?_filter_other (rows : List (String × String)) {n name : String} (hn : n ≠ name) :
    (rows.filter (·.1 != name)).find? (·.1 == n) = rows.find? (·.1 == n) := by
  rw [List.find?_filter]
  refine congrArg (rows.find? ·) (funext fun row => ?_)
  cases hr : row.1 == n with
  | false => simp
  | true =>
    have hne : row.1 ≠ name := fun he => hn ((beq_iff_eq.1 hr).symm.trans he)
    simp [hne]

theorem setting?_storeSetting {name value : String}
    (h : (Statement.storeSetting name value).execute s = some s') (n : String) :
    s'.setting? n = if n = name then some value else s.setting? n := by
  obtain ⟨rows, hrows, rfl⟩ := Option.map_eq_some_iff.1 h
  rw [setting?, Option.getD_some, List.find?_append, setting?, hrows, Option.getD_some]
  by_cases hn : n = name
  · subst hn
    have hnone : (rows.filter (·.1 != n)).find? (·.1 == n) = none := by
      rw [List.find?_eq_none]
      intro row hrow
      simpa using (List.mem_filter.1 hrow).2
    rw [hnone]
    simp
  · have hother : [(name, value)].find? (·.1 == n) = none := by
      simpa using fun he : name = n => hn he.symm
    rw [find?_filter_other rows hn, hother, Option.or_none, if_neg hn]

theorem setting?_of_execute {st : Statement} (h : st.execute s = some s')
    (hst : ∀ name value, st ≠ .storeSetting name value) (n : String) : s'.setting? n = s.setting? n := by
  cases st with
  | count t =>
    cases h
    rfl
  | create t =>
    cases t with
    | migrations =>
      cases h
      rfl
    | settings =>
      cases h
      rfl
  | selectVersions =>
    obtain ⟨rows, -, rfl⟩ := Option.map_eq_some_iff.1 h
    rfl
  | insert v =>
    obtain ⟨rows, -, h⟩ := Option.bind_eq_some_iff.1 h
    split at h
    · cases h
    · cases h
      rfl
  | delete v =>
    obtain ⟨rows, -, rfl⟩ := Option.map_eq_some_iff.1 h
    rfl
  | selectSetting name =>
    obtain ⟨rows, -, rfl⟩ := Option.map_eq_some_iff.1 h
    rfl
  | storeSetting name value => exact absurd rfl (hst name value)

end Server

theorem Event.Honest.not_has_of_counted {effect : Server.Effect} {e : Event} (h : e.Honest effect)
    {t : Tables} {table : Table} (hq : e.request = t.request (.count table))
    (hc : Tables.counted e.reply = .ok false) : e.before.has table = false ∧ e.after = e.before := by
  obtain ⟨he, hanswers⟩ := h.statement hq
  obtain ⟨r, hr, hcell⟩ := Tables.shown_of_counted hc
  exact ⟨(Statement.has_of_answers (hanswers r hr)).symm.trans hcell, (Option.some.inj he).symm⟩

/-- What a client that opens a driver executes touches no setting, unless it stores a default, after it has
found the table of settings missing and has made it. -/
theorem Task.Sends.setting_of_connect {effect : Server.Effect} {ok : Operation → Prop} {task : Task}
    {es : List Event} {e : Event} (h : task.Sends ok es e.request) (htask : task.IsConnect)
    (he : e.Honest effect) : (∀ n, e.after.setting? n = e.before.setting? n) ∨
      ∃ t name default made check rest, es = made :: check :: rest ∧ (name, default) ∈ Settings.known ∧
        made.request = Tables.request t (.create .settings) ∧
        check.request = Tables.request t (.count .settings) ∧ Tables.counted check.reply = .ok false ∧
        e.request = Tables.request t (.storeSetting name default) := by
  have hkept {t : Tables} {st : Statement} (hq : e.request = t.request st)
      (hst : ∀ name value, st ≠ .storeSetting name value) (n : String) :
      e.after.setting? n = e.before.setting? n :=
    Server.setting?_of_execute (he.statement hq).1 hst n
  generalize hq : e.request = q at h
  cases h with
  | asks hbody =>
    obtain ⟨v, -, hv, -⟩ := he
    rw [hq, hbody] at hv
    cases hv
  | counts t table _ => exact .inl (hkept hq nofun)
  | creates t table _ => exact .inl (hkept hq nofun)
  | seeds t _ hknown hmade hcheck hmissing =>
    exact .inr ⟨t, _, _, _, _, _, rfl, hknown, hmade, hcheck, hmissing, rfl⟩
  | looks t => exact .inl (hkept hq nofun)
  | commits c hs => exact htask.elim
  | reads t => exact htask.elim
  | stores t => exact htask.elim

/-! One client opens a driver and changes the setting while another is about to make its table. -/

def countBody : Bool → ByteArray
  | true => "\x7b\"result_type\":\"TuplesOk\",\"result\":[[\"count\"],[\"1\"]]\x7d".toUTF8
  | false => "\x7b\"result_type\":\"TuplesOk\",\"result\":[[\"count\"],[\"0\"]]\x7d".toUTF8

def commandBody : ByteArray := "\x7b\"result_type\":\"CommandOk\",\"result\":null\x7d".toUTF8

def settingsServer (settings : Option (List (String × String))) : Server :=
  .ofTables (some []) settings

def countEvent (table : Table) (s : Server) : Event :=
  ⟨defaultTables.request (.count table), .ok ⟨200, countBody (s.has table)⟩, s, s⟩

/-- The server executes a statement that answers with no rows. -/
def commandEvent (st : Statement) (s s' : Server) : Event :=
  ⟨defaultTables.request st, .ok ⟨200, commandBody⟩, s, s'⟩

theorem result_countBody (there : Bool) : SqlResult.ofBytes? (countBody there) =
    some ⟨"TuplesOk", some [[some "count"], [some (if there then "1" else "0")]]⟩ := by
  cases there <;> decide +kernel

theorem result_commandBody : SqlResult.ofBytes? commandBody = some ⟨"CommandOk", none⟩ := by decide +kernel

theorem honest_countEvent (table : Table) (s : Server) :
    (countEvent table s).Honest Driver.untouching :=
  ⟨_, ⟨200, countBody (s.has table)⟩, rfl, rfl,
    .statement (.count table) _ rfl rfl (result_countBody _) rfl, .inl rfl⟩

theorem honest_commandEvent {st : Statement} {s s' : Server} (h : st.execute s = some s')
    (hst : st.Answers s ⟨"CommandOk", none⟩) : (commandEvent st s s').Honest Driver.untouching :=
  ⟨_, ⟨200, commandBody⟩, rfl, rfl, .statement st _ rfl h result_commandBody hst, .inl rfl⟩

theorem counted_countBody (there : Bool) : Tables.counted (.ok ⟨200, countBody there⟩) = .ok there := by
  rw [Tables.counted_of_body (result_countBody there) rfl]
  cases there <;> rfl

theorem created_commandBody : Tables.created (.ok ⟨200, commandBody⟩) = .ok () :=
  Tables.created_of_body result_commandBody rfl

def lookEvent (s : Server) : Event :=
  ⟨defaultTables.request .selectVersions, .ok ⟨200, scalingBody .up⟩, s, s⟩

theorem honest_lookEvent (settings : Option (List (String × String))) :
    (lookEvent (settingsServer settings)).Honest Driver.untouching :=
  ⟨_, ⟨200, scalingBody .up⟩, rfl, rfl, .statement .selectVersions _ rfl rfl (result_scalingBody .up)
    ⟨[], .refl _, rfl⟩, .inl rfl⟩

def opening : Task := .connect .default (some .legacy)

def seeding : Statement := .storeSetting "migration_mode" Settings.defaultMode

theorem exchange_opening :
    ∃ next₁, opening.exchange = .send (defaultTables.request (.count .migrations)) next₁ ∧
    ∃ next₂, next₁ (.ok ⟨200, countBody true⟩) = .send (defaultTables.request (.count .settings)) next₂ ∧
    ∃ next₃, next₂ (.ok ⟨200, countBody false⟩) = .send (defaultTables.request (.create .settings)) next₃ ∧
    ∃ next₄, next₃ (.ok ⟨200, commandBody⟩) = .send (defaultTables.request seeding) next₄ ∧
    ∃ next₅, next₄ (.ok ⟨200, commandBody⟩) = .send (defaultTables.request .selectVersions) next₅ ∧
      next₅ (.ok ⟨200, scalingBody .up⟩) = .done (some Driver.rowDriver) := by
  have hshown : Tables.shown (.ok ⟨200, commandBody⟩) = .ok ⟨"CommandOk", none⟩ :=
    Tables.shown_of_body result_commandBody
  have hlisted : Tables.listed (.ok ⟨200, scalingBody .up⟩) = .ok [] := listed_scalingLook .up
  simp only [opening, Task.exchange, Driver.connect, Capability.detect, Attempt.run_bind,
    Attempt.run_within, Attempt.run_pure, Exchange.done_bind, mapError_ok, Driver.attach, ExceptT.run_mk,
    Driver.start, Tracker.ofCapability, Tracker.prepare, Action.bind_apply, Driver.track_tables,
    Tables.run_prepare, Tables.run_ensureTable, Exchange.send_bind]
  refine ⟨_, rfl, ?_⟩
  simp only [counted_countBody, Exchange.done_bind, Exchange.send_bind]
  refine ⟨_, rfl, ?_⟩
  simp only [counted_countBody, Exchange.done_bind, Exchange.send_bind]
  refine ⟨_, rfl, ?_⟩
  simp only [created_commandBody, Except.map, Exchange.done_bind, Exchange.send_bind]
  refine ⟨_, rfl, ?_⟩
  simp only [hshown, mapError_ok, Exchange.done_bind, Driver.scan_tables, Exchange.send_bind]
  refine ⟨_, rfl, ?_⟩
  simp only [hlisted]
  rfl

/-- The servers that the clients come upon: without the table of settings, with it, with the default in it,
and with the value that a client has stored in its place. -/
def untracked : Server := settingsServer none

def unseeded : Server := settingsServer (some [])

def seededServer : Server := settingsServer (some [("migration_mode", "true")])

def changedServer : Server := settingsServer (some [("migration_mode", "false")])

def changing : Statement := .storeSetting "migration_mode" "false"

def changingTask : Task := .updateSetting Driver.rowDriver "migration_mode" "false"

theorem goes_opening : ∃ next next',
    opening.exchange.Goes Driver.untouching untracked
      [countEvent .migrations untracked, countEvent .settings untracked]
      (.send (defaultTables.request (.create .settings)) next) untracked ∧
    (∀ s s' s'', (Statement.create .settings).execute s = some s' → seeding.execute s' = some s'' →
      (Exchange.send (defaultTables.request (.create .settings)) next).Goes Driver.untouching s
        [commandEvent (.create .settings) s s', commandEvent seeding s' s'']
        (.send (defaultTables.request .selectVersions) next') s'') ∧
    (Exchange.send (defaultTables.request .selectVersions) next').Goes Driver.untouching seededServer
      [lookEvent seededServer] (.done (some Driver.rowDriver)) seededServer := by
  obtain ⟨next₁, h₁, next₂, h₂, next₃, h₃, next₄, h₄, next₅, h₅, hdone⟩ := exchange_opening
  refine ⟨next₃, next₅, ?_, fun s s' s'' hmade hseeded => ?_, ?_⟩
  · rw [h₁]
    refine .event (e := countEvent .migrations untracked) (honest_countEvent _ _) ?_
    rw [show (countEvent .migrations untracked).reply = .ok ⟨200, countBody true⟩ from rfl, h₂]
    refine .event (e := countEvent .settings untracked) (honest_countEvent _ _) ?_
    rw [show (countEvent .settings untracked).reply = .ok ⟨200, countBody false⟩ from rfl, h₃]
    exact .stays _ _
  · refine .event (e := commandEvent (.create .settings) s s') (honest_commandEvent hmade rfl) ?_
    rw [commandEvent, h₄]
    refine .event (e := commandEvent seeding s' s'') (honest_commandEvent hseeded rfl) ?_
    rw [commandEvent, h₅]
    exact .stays _ _
  · refine .event (e := lookEvent seededServer) (honest_lookEvent _) ?_
    rw [lookEvent, hdone]
    exact .stays _ _

theorem goes_changing : changingTask.exchange.Goes Driver.untouching seededServer
    [commandEvent changing seededServer changedServer] (.done (some Driver.rowDriver)) changedServer := by
  have hname : Settings.defaultOf "migration_mode" = .ok "true" := rfl
  simp only [changingTask, Task.exchange, Driver.rowDriver, Driver.updateSetting, Tracker.updateSetting,
    Driver.track_tables, Tables.run_updateSetting, hname, Exchange.send_bind, Exchange.done_bind]
  exact .event (e := commandEvent changing seededServer changedServer) (honest_commandEvent rfl rfl)
    (.stays _ _)

def openingFleet : Fleet Bool := ⟨untracked, fun _ => .idle none, []⟩

theorem initial_openingFleet : openingFleet.Initial := ⟨fun _ => ⟨none, rfl, nofun⟩, rfl⟩

/-- The default is stored for the first client, which has found the table missing and made it. -/
def overtakenSeeding : Execution Bool where
  toEvent := commandEvent seeding changedServer seededServer
  client := true
  task := opening
  earlier := [commandEvent (.create .settings) changedServer changedServer,
    countEvent .settings untracked, countEvent .migrations untracked]

theorem reachable_overtaken : ∃ n earlier,
    Fleet.Reachable Driver.untouching (fun _ => True) openingFleet n ∧
    n.history = overtakenSeeding :: earlier := by
  obtain ⟨next, next', hcounts, hseeds, hlook⟩ := goes_opening
  have hbegins : opening.Begins (fun _ => True) none := nofun
  have hchanges : changingTask.Begins (fun _ => True) (some Driver.rowDriver) := rfl
  have hstart : Fleet.Reachable Driver.untouching (fun _ => True) openingFleet openingFleet := .start
  have hcounted := hstart.begins (i := true) rfl hbegins hcounts
  have hopens := (hcounts.trans (hseeds untracked unseeded seededServer rfl rfl)).trans hlook
  have hopened := hcounted.finishes (i := false) (by simp [openingFleet]) hbegins hopens
  have hchanged := hopened.finishes (i := false) (by simp) hchanges goes_changing
  have hseeded := hchanged.goes (i := true) (by simp; exact ⟨rfl, rfl⟩)
    (hseeds changedServer changedServer seededServer rfl rfl)
  exact ⟨_, _, hseeded, rfl⟩

namespace Fleet

variable {ι : Type} [DecidableEq ι] {effect : Server.Effect} {ok : Operation → Prop} {n₀ n : Fleet ι}

/-- A client has found the table of settings missing and has made it.  What is stored in the table by then,
another client has stored since. -/
theorem exists_stored_since {xs : List (Execution ι)} {s : Server} (h : Past effect ok xs s) {i : ι}
    {made check : Event} {rest : List Event} (hown : made :: check :: rest <+: ownEvents i xs) {t : Tables}
    (hmade : made.request = t.request (.create .settings))
    (hcheck : check.request = t.request (.count .settings))
    (hmissing : Tables.counted check.reply = .ok false) {name : String} (hset : s.setting? name ≠ none) :
    ∃ between look earlier, xs = between ++ look :: earlier ∧ look.toEvent = check ∧ look.client = i ∧
      look.before.settings = none ∧
      ∃ y ∈ between, y.client ≠ i ∧ y.before.setting? name = none ∧ y.after.setting? name ≠ none := by
  obtain ⟨own, hown⟩ := hown
  obtain ⟨since, m, before, rfl, -, rfl, hsince, hown'⟩ := exists_of_ownEvents_eq_cons hown.symm
  obtain ⟨meanwhile, k, earlier, rfl, hk, rfl, hmeanwhile, -⟩ := exists_of_ownEvents_eq_cons hown'
  have hsplit : since ++ m :: (meanwhile ++ k :: earlier) = (since ++ m :: meanwhile) ++ k :: earlier := by
    simp
  rw [hsplit] at h
  have hm := (h.of_mem (x := m) (by simp)).1
  obtain ⟨hhas, hsame⟩ := (h.of_mem (x := k) (by simp)).1.not_has_of_counted hcheck hmissing
  have hnone : k.before.settings = none := by simpa [Server.has] using hhas
  have hunset : k.after.setting? name = none := by
    rw [hsame, Server.setting?, hnone]
    rfl
  obtain ⟨y, hy, hbefore, hstored⟩ := h.exists_end (P := fun s => s.setting? name = none) hunset hset
  refine ⟨since ++ m :: meanwhile, k, earlier, hsplit, rfl, hk, hnone, y, hy, ?_, hbefore, hstored⟩
  -- The client itself has only made the table in between, which stores nothing.
  rcases List.mem_append.1 hy with hy | hy
  · exact hsince y hy
  rcases List.mem_cons.1 hy with rfl | hy
  · have hkept := Server.setting?_of_execute (hm.statement hmade).1 nofun name
    exact absurd (hkept.trans hbefore) hstored
  · exact hmeanwhile y hy

/-- What a client that opens a driver executes leaves each stored setting as it is, or else stores the
default of a setting in a table that it has found missing, while another client has stored the setting
first. -/
theorem setting_kept_or_seeded (h₀ : n₀.Initial) (h : Reachable effect ok n₀ n) :
    ∀ later x earlier, n.history = later ++ x :: earlier → x.task.IsConnect →
      ∀ name value, x.before.setting? name = some value → x.after.setting? name = some value ∨
        ∃ default, (name, default) ∈ Settings.known ∧ x.after.setting? name = some default ∧
          ∃ between check rest, earlier = between ++ check :: rest ∧ check.toEvent ∈ x.earlier ∧
            check.client = x.client ∧ check.before.settings = none ∧
            ∃ y ∈ between, y.client ≠ x.client ∧ y.before.setting? name = none ∧
              y.after.setting? name ≠ none := by
  intro later x earlier hhistory htask name value hvalue
  have hpast := (h.consistent h₀).past
  rw [hhistory] at hpast
  cases hpast.of_append with
  | step hrest he hs hown =>
    rcases hs.setting_of_connect htask he with
      hkept | ⟨t, seeded, default, made, check, rest, hes, hknown, hmade, hcheck, hmissing, hq⟩
    · exact .inl ((hkept name).trans hvalue)
    · have hafter := Server.setting?_storeSetting (he.statement hq).1 name
      by_cases hname : name = seeded
      · subst hname
        rw [if_pos rfl] at hafter
        have hset : x.before.setting? name ≠ none := by simp [hvalue]
        rw [hes] at hown
        obtain ⟨between, look, rest', hsplit, hlook, hclient, hnone, hstored⟩ :=
          exists_stored_since hrest hown hmade hcheck hmissing hset
        have hmem : look.toEvent ∈ x.earlier := by simp [hes, hlook]
        exact .inr ⟨default, hknown, hafter, between, look, rest', hsplit, hmem, hclient, hnone, hstored⟩
      · rw [if_neg hname] at hafter
        exact .inl (hafter.trans hvalue)

/-- The value that is lost there was stored since the table was found missing. -/
theorem setting_seeded_overtaken : ∃ (n : Fleet Bool) (x : Execution Bool) (earlier : List (Execution Bool)),
    openingFleet.Initial ∧ Reachable Driver.untouching (fun _ => True) openingFleet n ∧
    n.history = x :: earlier ∧ x.task.IsConnect ∧ x.before.setting? "migration_mode" = some "false" ∧
    ∃ y ∈ earlier, y.client ≠ x.client ∧ y.before.setting? "migration_mode" = none ∧
      y.after.setting? "migration_mode" ≠ none := by
  obtain ⟨n, earlier, h, hhistory⟩ := reachable_overtaken
  have h₀ := initial_openingFleet
  refine ⟨n, overtakenSeeding, earlier, h₀, h, hhistory, trivial, rfl, ?_⟩
  have hlost : overtakenSeeding.after.setting? "migration_mode" ≠ some "false" := by decide
  rcases setting_kept_or_seeded h₀ h [] overtakenSeeding earlier hhistory trivial "migration_mode" "false" rfl
    with hkept | ⟨-, -, -, between, check, rest, rfl, -, -, -, y, hy, hother, hbefore, hafter⟩
  · exact absurd hkept hlost
  · exact ⟨y, List.mem_append_left _ hy, hother, hbefore, hafter⟩

/-- There a value that a client has stored is lost when another client opens a driver. -/
theorem setting_overwritten : ∃ (n : Fleet Bool) (x : Execution Bool) (earlier : List (Execution Bool)),
    openingFleet.Initial ∧ Reachable Driver.untouching (fun _ => True) openingFleet n ∧
    n.history = x :: earlier ∧ x.task.IsConnect ∧
    x.before.setting? "migration_mode" = some "false" ∧ x.after.setting? "migration_mode" = some "true" := by
  obtain ⟨n, earlier, h, hhistory⟩ := reachable_overtaken
  exact ⟨n, overtakenSeeding, earlier, initial_openingFleet, h, hhistory, trivial, rfl, rfl⟩

end Fleet

end EngineMigrate
