import EngineMigrate.Proofs.LocalFailure
import EngineMigrate.Proofs.PlanFaults

/-!
Targets that have been reached.  A scan is one request, whichever way the records are kept.  Main statement:
a target that goes all the way, once it is reached, has an empty plan, and applying it again sends nothing
but the scan.
-/
namespace EngineMigrate

/-- Goes all the way: as far as it can in a direction, or to a version. -/
def Target.IsWhole : Target → Prop
  | .up none | .down none | .goto _ => True
  | _ => False

namespace Plan

variable {s : Source} {applied : VersionSet} {target : Target} {p : Plan}

theorem downs_replay (hw : target.IsWhole) (h : build s applied target = .ok p) :
    downs (replay applied p) target = [] := by
  have hreached := mem_replay_of_build h
  refine List.eq_nil_iff_forall_not_mem.2 fun v hv => ?_
  rcases target with limit | (_ | n) | t | ⟨w, _ | _⟩
  · cases hv
  · have hv : v ∈ replay applied p := by simpa [downs, takeUpTo] using hv
    exact (hreached v).1 hv
  · cases hw
  · obtain ⟨hv, hlt⟩ : v ∈ replay applied p ∧ t < v := by simpa [downs] using hv
    have hle : v ≤ t := ((hreached v).1 hv).elim And.right And.right
    exact absurd hlt (Nat.not_lt.2 hle)
  · cases hw
  · cases hw

theorem ups_replay (hw : target.IsWhole) (h : build s applied target = .ok p) :
    ups s (replay applied p) target = [] := by
  have hreached := mem_replay_of_build h
  refine List.eq_nil_iff_forall_not_mem.2 fun v hv => ?_
  rcases target with (_ | n) | limit | t | ⟨w, _ | _⟩
  · obtain ⟨hfile, hnot⟩ : IsPending s (replay applied p) v := by
      simpa [ups, takeUpTo, mem_pending] using hv
    refine hnot ((hreached v).2 ?_)
    by_cases ha : v ∈ applied
    · exact .inl ha
    · exact .inr ⟨hfile, ha⟩
  · cases hw
  · cases hv
  · obtain ⟨⟨hfile, hnot⟩, hle⟩ : IsPending s (replay applied p) v ∧ v ≤ t := by
      simpa [ups, mem_pending] using hv
    exact hnot ((hreached v).2 (.inr ⟨hfile, hle⟩))
  · cases hw
  · cases hw

/-- The plan for a target that is reached is empty. -/
theorem build_replay (hw : target.IsWhole) (h : build s applied target = .ok p) :
    build s (replay applied p) target = .ok [] := by
  have hdowns := downs_replay hw h
  have hups := ups_replay hw h
  rcases target with (_ | n) | (_ | n) | t | ⟨w, d⟩
  · exact congrArg (steps s .up) hups
  · cases hw
  · exact congrArg (steps s .down) hdowns
  · cases hw
  · have hknown : ¬ s.Lacks t := ((exists_build_iff s applied).1 ⟨p, h⟩).1
    simp only [build, (contains_iff_not_lacks s).2 hknown]
    show (do
      let down ← steps s .down (downs (replay applied p) (.goto t))
      let up ← steps s .up (ups s (replay applied p) (.goto t))
      return down ++ up) = _
    rw [hdowns, hups]
    rfl
  · cases hw

end Plan

namespace Driver

variable {t : FileTree} {source : Source} {target : Target} {options : ApplyOptions}

def scanned (d : Driver) (reply : Reply) : Except DriverFault Unit × Driver :=
  match d.tracker with
  | .tables _ => match Tables.listed reply with
    | .error e => (.error (.tracking e), d)
    | .ok es => (.ok (), { d with applied := .ofList (es.map Entry.version) })
  | .catalog t => match LedgerStore.found reply with
    | .error e => (.error (.tracking (.catalog e)), d)
    | .ok st => (.ok (), { d with
        tracker := .catalog { t with ledger := st.upgrade }, applied := .ofList st.upgrade.versions })

theorem scan_eq (d : Driver) :
    scan d = .send d.scanRequest fun reply => .done (d.scanned reply) := by
  obtain ⟨tracker, applied, locked, skip⟩ := d
  cases tracker with
  | tables t =>
    rw [scan_tables]
    apply Exchange.send_congr
    intro reply
    cases hlisted : Tables.listed reply <;> simp only [scanned, hlisted]
  | catalog t =>
    rw [scan_catalog]
    apply Exchange.send_congr
    intro reply
    cases hfound : LedgerStore.found reply <;> simp only [scanned, hfound]

theorem scanned_cases (d : Driver) (reply : Reply) :
    (∃ f, d.scanned reply = (.error (.tracking f), d)) ∨
      (reply.isAccepted = true ∧ (d.scanned reply).1 = .ok ()) := by
  obtain ⟨tracker, applied, locked, skip⟩ := d
  cases tracker with
  | tables t =>
    simp only [scanned]
    cases hlisted : Tables.listed reply with
    | error e => exact .inl ⟨e, rfl⟩
    | ok es =>
      obtain ⟨r, hr⟩ := Tables.shown_of_listed hlisted
      exact .inr ⟨Tables.isAccepted_of_shown hr, rfl⟩
  | catalog t =>
    simp only [scanned]
    cases hfound : LedgerStore.found reply with
    | error e => exact .inl ⟨.catalog e, rfl⟩
    | ok st =>
      obtain ⟨response, -, rfl, hs, -⟩ := LedgerStore.found_eq_ok hfound
      exact .inr ⟨hs, rfl⟩

@[simp] theorem locked_scanned (d : Driver) (reply : Reply) :
    (d.scanned reply).2.locked = d.locked := by
  unfold scanned
  split <;> split <;> rfl

@[simp] theorem skip_scanned (d : Driver) (reply : Reply) :
    (d.scanned reply).2.skipConsistencyCheck = d.skipConsistencyCheck := by
  unfold scanned
  split <;> split <;> rfl

@[simp] theorem route_scanned (d : Driver) (reply : Reply) :
    (d.scanned reply).2.tracker.route = d.tracker.route := by
  obtain ⟨tracker, applied, locked, skip⟩ := d
  cases tracker <;> simp only [scanned] <;> split <;> rfl

theorem records_scanned (d : Driver) (reply : Reply) (s : Server) (i : Int) :
    s.Records (d.scanned reply).2.tracker i ↔ s.Records d.tracker i := by
  obtain ⟨tracker, applied, locked, skip⟩ := d
  cases tracker <;> simp only [scanned] <;> split <;> rfl

theorem apply_eq_send (d : Driver) : apply t source target options d =
    .send d.scanRequest fun reply => match d.scanned reply with
      | (.ok (), d₁) => applyScanned t source target options d₁
      | (.error f, d₁) => .done (.error f, d₁) := by
  rw [apply_eq, Action.bind_apply, scan_eq, Exchange.send_bind]
  apply Exchange.send_congr
  intro reply
  rcases d.scanned reply with ⟨_ | _, d₁⟩ <;> rfl

/-- With an empty plan an application is done once it has scanned. -/
theorem applyScanned_of_nil {d : Driver} (h : Plan.build source d.applied target = .ok []) :
    applyScanned t source target options d = .done (.ok ⟨[], options.dryRun⟩, d) := by
  simp [applyScanned, h]

variable {effect : Server.Effect} {d : Driver} {s : Server} {applied : VersionSet}

theorem Reflects.opened (h : d.Reflects s) (hrows : ∀ t, d.tracker = .tables t → s.migrations.isSome) :
    d.Opened s := by
  obtain ⟨tracker, applied, locked, skip⟩ := d
  cases tracker with
  | tables t => exact hrows t rfl
  | catalog t =>
    obtain ⟨st, hst, -⟩ := CatalogTracker.Reflects.stored h
    exact ⟨CatalogTracker.Reflects.idle h, CatalogTracker.Reflects.prepared h, st, hst⟩

theorem isSome_of_scanned {reply : Reply} {s' : Server} {t : Tables}
    (hr : Server.Handles effect s d.scanRequest reply s') (hok : (d.scanned reply).1 = .ok ())
    (ht : (d.scanned reply).2.tracker = .tables t) : s.migrations.isSome := by
  obtain ⟨tracker, applied, locked, skip⟩ := d
  cases tracker with
  | tables t =>
    simp only [scanned] at hok
    cases hlisted : Tables.listed reply with
    | error e => simp [hlisted] at hok
    | ok es =>
      obtain ⟨r, hshown⟩ := Tables.shown_of_listed hlisted
      rcases Server.handles_statement hr with ⟨st, htext, he, -⟩ | ⟨-, hnone⟩
      · obtain rfl := Statement.eq_selectVersions htext
        obtain ⟨rows, hrows, -⟩ := Option.map_eq_some_iff.1 he
        simp [hrows]
      · exact absurd hshown (hnone r)
  | catalog t =>
    simp only [scanned] at ht
    split at ht <;> cases ht

/-- A driver whose scan has succeeded knows the versions on record. -/
theorem always_scan_keeps (hd : d.Ready s) (happlied : s.Keeps d.tracker applied) :
    (scan d).Always (Server.peer effect) (fun r s' => s' = s ∧ (r.1 = .ok () →
      r.2.Reflects s ∧ r.2.Opened s ∧ r.2.applied = applied)) s := by
  have hscan : (scan d).Always (Server.peer effect) _ s := always_scan hd
  rw [scan_eq] at hscan ⊢
  refine ⟨trivial, fun reply s' hr => ?_⟩
  obtain ⟨rfl, hrecords, ⟨hne, -⟩ | ⟨hok, hreflects⟩⟩ := hscan.2 reply s' hr
  · exact ⟨rfl, fun hok => absurd hok hne⟩
  · have hopened := hreflects.opened fun t => isSome_of_scanned hr hok
    refine ⟨rfl, fun _ => ⟨hreflects, hopened, VersionSet.eq_of_mem_iff fun v => ?_⟩⟩
    rw [← VersionSet.exists_mem_cast_iff, hreflects.agrees v, hrecords, ← happlied v,
      VersionSet.exists_mem_cast_iff]

theorem isSome_of_commit {session : Session} {s' : Server} {t : Tables} (hopen : d.Opened s)
    (hs : session.Holds (Server.Untouched effect))
    (he : Server.ExecutesAll effect (batchItems (d.commitBatches session)) s s')
    (ht : (d.succeeded session).tracker = .tables t) : s'.migrations.isSome := by
  obtain ⟨tracker, applied, locked, skip⟩ := d
  cases tracker with
  | tables t => exact Server.isSome_of_changes (executesAll_changes_of_commit rfl hs he) hopen
  | catalog t =>
    simp only [succeeded, Tracker.succeeded] at ht
    split at ht <;> cases ht

/-- A commit that succeeds leaves the versions on record that it leaves applied. -/
theorem always_commit_succeeded {session : Session} (hd : d.Reflects s) (hopen : d.Opened s)
    (hne : session.isEmpty = false) (hs : session.Holds (Server.Untouched effect)) :
    (commit session d).Always (Server.peer effect) (fun r s' => r.1 = .ok () →
      r.2 = d.succeeded session ∧ (d.succeeded session).Reflects s' ∧
        (d.succeeded session).Opened s') s := by
  rw [commit_eq hne]
  apply (always_check_server d session s).bind
  rintro r s' rfl
  cases r with
  | error e => nofun
  | ok u =>
    apply (always_sendBatches_server (d.commitBatches session) s').bind
    intro r s'' hr
    cases r with
    | error e => nofun
    | ok u =>
      have hreflects := hd.succeeded hs hr
      exact fun _ => ⟨rfl, hreflects, hreflects.opened fun t ht => isSome_of_commit hopen hs hr ht⟩

/-- Once it has scanned, an application that succeeds had a plan, and, unless it was only planned, the
server is left with the versions on record to which the plan leads, where the driver finds them. -/
theorem always_applyScanned_server (hd : d.Reflects s) (hopen : d.Opened s)
    (hstages : d.StagesOnly t source target options d.applied (Server.Untouched effect)) :
    (applyScanned t source target options d).Always (Server.peer effect) (fun r s' => ∀ result,
      r.1 = .ok result → (∃ p, Plan.build source d.applied target = .ok p ∧
        result.migrations = p.map Step.applied ∧
        (options.dryRun = false → s'.Keeps d.tracker (Plan.replay d.applied p))) ∧
      r.2.Opened s' ∧ ∀ i, s'.Records r.2.tracker i ↔ s'.Records d.tracker i) s := by
  cases ends_applyScanned t source target options d with
  | unplanned hplan h =>
    rw [h]
    nofun
  | refused hplan hne hdry hlocked h =>
    rw [h]
    nofun
  | unstaged hplan hne hdry hfree hstage h =>
    rw [h]
    nofun
  | @idle p hplan hnone h =>
    rw [h]
    rintro result ⟨⟩
    refine ⟨⟨p, hplan, rfl, fun hdry => ?_⟩, hopen, fun i => Iff.rfl⟩
    rw [hnone.resolve_right (by simp [hdry])]
    exact hd.agrees
  | @committed p session hplan hne hdry hfree hstage h =>
    have hstaged : session.changes = p.map Step.change := Session.changes_stagePlan hstage
    have hnonempty : session.isEmpty = false := by simp [Session.isEmpty, hstaged, hne]
    have hreflects : Reflects { d with locked := true } s := reflects_free d true s hd
    rw [h, unlock_apply]
    simp only [Exchange.always_bind, Exchange.always_done]
    apply (always_commit_succeeded hreflects hopen hnonempty (hstages p session hplan hdry hstage)).mono
    rintro ⟨_ | u, d'⟩ s' hcommit result hresult
    · cases hresult
    · cases hresult
      obtain ⟨rfl, hagrees, hopened⟩ := hcommit rfl
      have hrecords := records_succeeded { d with locked := true } session s'
      refine ⟨⟨p, hplan, rfl, fun _ i => ?_⟩, hopened, hrecords⟩
      rw [← Change.applyAll_changes, ← hstaged]
      exact (hagrees.agrees i).trans (hrecords i)

/-- The same of an application from its scan on, for the versions that are on record at first. -/
theorem always_apply_server (hd : d.Ready s) (happlied : s.Keeps d.tracker applied)
    (hstages : d.StagesOnly t source target options applied (Server.Untouched effect)) :
    (apply t source target options d).Always (Server.peer effect) (fun r s' => ∀ result,
      r.1 = .ok result → (∃ p, Plan.build source applied target = .ok p ∧
        result.migrations = p.map Step.applied ∧
        (options.dryRun = false → s'.Keeps d.tracker (Plan.replay applied p))) ∧
      r.2.Opened s' ∧ ∀ i, s'.Records r.2.tracker i ↔ s'.Records d.tracker i) s := by
  have hscan : (scan d).Always (Server.peer effect) _ s := always_scan_keeps hd happlied
  rw [scan_eq] at hscan
  rw [apply_eq_send]
  refine ⟨trivial, fun reply s' hr => ?_⟩
  obtain ⟨rfl, hknows⟩ := hscan.2 reply s' hr
  have hrecords := d.records_scanned reply
  have hroute := d.route_scanned reply
  have hskip := d.skip_scanned reply
  dsimp only
  generalize d.scanned reply = scanned at hknows hrecords hroute hskip ⊢
  obtain ⟨_ | u, d₁⟩ := scanned
  · simp
  · obtain ⟨hreflects, hopened, rfl⟩ := hknows rfl
    dsimp only at hrecords hroute hskip
    have hstages₁ : d₁.StagesOnly t source target options d₁.applied (Server.Untouched effect) := by
      intro plan session hplan hdry hstage
      rw [hroute, hskip] at hstage
      exact hstages plan session hplan hdry hstage
    apply (always_applyScanned_server hreflects hopened hstages₁).mono
    intro r s'' h result hresult
    obtain ⟨⟨p, hp, hmigrations, hkeeps⟩, hopened', hrecords'⟩ := h result hresult
    refine ⟨⟨p, hp, hmigrations, fun hdry i => ?_⟩, hopened', fun i => ?_⟩
    · exact (hkeeps hdry i).trans (hrecords s'' i)
    · exact (hrecords' i).trans (hrecords s'' i)

theorem scanned_of_handles {reply : Reply} {s' : Server} (hd : d.Opened s)
    (happlied : s.Keeps d.tracker applied) (hword : ∀ v ∈ applied, v < Text.wordLimit)
    (hr : Server.Handles effect s d.scanRequest reply s') (hacc : reply.isAccepted = true) :
    ∃ d₁, d.scanned reply = (.ok (), d₁) ∧ d₁.applied = applied := by
  have hscan : (scan d).Always (Server.willing effect) _ s := always_scan_willing hd happlied hword
  rw [scan_eq] at hscan
  obtain ⟨-, hok, hfound, -⟩ := hscan.2 reply s' ⟨hr, .inl hacc⟩
  exact ⟨(d.scanned reply).2, Prod.ext hok rfl, hfound⟩

/-- Applying the target sends the scan and nothing else, which leaves the server as it is; and it applies
nothing, unless the scan is refused. -/
def FindsNothing (effect : Server.Effect) (t : FileTree) (source : Source) (target : Target)
    (options : ApplyOptions) (d : Driver) (s : Server) : Prop :=
  ∃ next, apply t source target options d = .send d.scanRequest next ∧
    ∀ reply s', Server.Handles effect s d.scanRequest reply s' →
      s' = s ∧ ∃ r d', next reply = .done (r, d') ∧
        (reply.isAccepted = true → r = .ok ⟨[], options.dryRun⟩) ∧
        (reply.isAccepted = false → ∃ f, r = .error (.tracking f))

theorem findsNothing_of_build (hd : d.Opened s) (happlied : s.Keeps d.tracker applied)
    (hword : ∀ v ∈ applied, v < Text.wordLimit) (hplan : Plan.build source applied target = .ok []) :
    d.FindsNothing effect t source target options s := by
  refine ⟨_, apply_eq_send d, fun reply s' hr => ?_⟩
  rcases d.scanned_cases reply with ⟨f, hfail⟩ | ⟨hacc, -⟩
  · have hrefused : reply.isAccepted = false := by
      by_contra hacc
      obtain ⟨d₁, hfound, -⟩ := scanned_of_handles hd happlied hword hr (by simpa using hacc)
      rw [hfail] at hfound
      cases hfound
    cases hr with
    | executed hq hsuccess h => exact absurd (hrefused.symm.trans hsuccess) (by simp)
    | refused h =>
      refine ⟨rfl, .error (.tracking f), d, by rw [hfail], fun hacc => ?_, fun _ => ⟨f, rfl⟩⟩
      exact absurd (hrefused.symm.trans hacc) (by simp)
  · obtain ⟨d₁, hfound, rfl⟩ := scanned_of_handles hd happlied hword hr hacc
    have hready : d.Ready s := by
      obtain ⟨tracker, old, locked, skip⟩ := d
      cases tracker with
      | tables t => trivial
      | catalog t => exact ⟨hd.1, hd.2.1⟩
    have hscan : (scan d).Always (Server.peer effect) _ s := always_scan hready
    rw [scan_eq] at hscan
    refine ⟨(hscan.2 reply s' hr).1, .ok ⟨[], options.dryRun⟩, d₁, ?_, fun _ => rfl, fun hrefused => ?_⟩
    · rw [hfound]
      exact applyScanned_of_nil hplan
    · exact absurd (hacc.symm.trans hrefused) (by simp)

/-- A target that goes all the way is reached once and for all: from where its plan leads, the plan is
empty.  So after an application that has succeeded, whoever applies the target again, while the versions
on record are the same, has nothing to do: the driver itself, which is left where it finds them, or any
other. -/
theorem apply_again (hw : target.IsWhole) :
    (∀ applied p, Plan.build source applied target = .ok p →
      Plan.build source (Plan.replay applied p) target = .ok []) ∧
    ∀ {effect : Server.Effect} {t : FileTree} {options : ApplyOptions} {applied : VersionSet}
      {d d' : Driver} {s s' : Server} {result : ApplyResult},
      d.Ready s → s.Keeps d.tracker applied → options.dryRun = false →
      d.StagesOnly t source target options applied (Server.Untouched effect) →
      (apply t source target options d).Leads (Server.peer effect) s (.ok result, d') s' →
      d'.Opened s' ∧ (∀ i, s'.Records d'.tracker i ↔ s'.Records d.tracker i) ∧
      ∀ {effect₂ : Server.Effect} {t₂ : FileTree} {options₂ : ApplyOptions} {d₂ : Driver} {s₂ : Server},
        d₂.Opened s₂ → (∀ i, s₂.Records d₂.tracker i ↔ s'.Records d.tracker i) →
        (∀ i, s₂.Records d₂.tracker i → i < Text.wordLimit) →
        d₂.FindsNothing effect₂ t₂ source target options₂ s₂ := by
  refine ⟨fun applied p => Plan.build_replay hw, ?_⟩
  intro effect t options applied d d' s s' result hd happlied hdry hstages hfirst
  obtain ⟨⟨p, hp, -, hkeeps⟩, hopened, hrecords⟩ :=
    (always_apply_server hd happlied hstages).of_leads hfirst result rfl
  refine ⟨hopened, hrecords, ?_⟩
  intro effect₂ t₂ options₂ d₂ s₂ hd₂ hsame hword
  have hkeeps₂ : s₂.Keeps d₂.tracker (Plan.replay applied p) :=
    fun i => (hkeeps hdry i).trans (hsame i).symm
  refine findsNothing_of_build hd₂ hkeeps₂ (fun v hv => ?_) (Plan.build_replay hw hp)
  exact Int.ofNat_lt.1 (hword v ((hkeeps₂ v).1 ⟨v, hv, rfl⟩))

theorem leads_peer_of_willing {α : Type} {x : Exchange α} {a : α} {s s' : Server}
    (h : x.Leads (Server.willing effect) s a s') : x.Leads (Server.peer effect) s a s' := by
  induction h with
  | done a k => exact .done a k
  | send hr _ ih => exact .send hr.1 ih

/-- The table is created and its version recorded, and the driver then finds nothing to apply. -/
theorem apply_again_table : ∃ d' s',
    (apply tableTree tableSource (.up none) ⟨false, false⟩ rowDriver).Leads (Server.peer untouching)
      rowServer (.ok ⟨[⟨2, some "b", .up⟩], false⟩, d') s' ∧
    (∀ i, s'.Records d'.tracker i ↔ i = 1 ∨ i = 2) ∧
    d'.FindsNothing untouching tableTree tableSource (.up none) ⟨false, false⟩ s' := by
  obtain ⟨d', s', hrun⟩ := leads_apply_rowDriver
  have hfirst := leads_peer_of_willing hrun
  have hready : rowDriver.Ready rowServer := trivial
  have hrows : rowServer.Keeps rowDriver.tracker (.ofList [1]) := by
    intro i
    show _ ↔ ∃ row ∈ [(⟨1, false⟩ : Row)], row.version = i
    simp [VersionSet.mem_ofList]
  have hstages : rowDriver.StagesOnly tableTree tableSource (.up none) ⟨false, false⟩ (.ofList [1])
      (Server.Untouched untouching) := fun plan session hplan hdry hstage x hx =>
    (stagesOnly_createTable (s := rowServer) rfl (.inl rfl) plan session hplan hdry hstage x hx).1
  have hwhole : Target.IsWhole (.up none) := trivial
  obtain ⟨hopened, hrecords, hagain⟩ := (apply_again hwhole).2 hready hrows rfl hstages hfirst
  have hreached : ∀ i, s'.Records d'.tracker i ↔ i = 1 ∨ i = 2 := by
    obtain ⟨⟨p, hp, -, hkeeps⟩, -⟩ := (always_apply_server hready hrows hstages).of_leads hfirst _ rfl
    rw [build_tableSource] at hp
    cases hp
    intro i
    rw [hrecords, ← hkeeps rfl i, tablePlan]
    simp [Plan.replay, Plan.replayStep, eq_comm, or_comm]
  refine ⟨d', s', hfirst, hreached, hagain hopened hrecords fun i hi => ?_⟩
  rcases (hreached i).1 hi with rfl | rfl <;> decide

end Driver

end EngineMigrate
