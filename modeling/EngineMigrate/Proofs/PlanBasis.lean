import EngineMigrate.Proofs.Agreement

/-!
What a driver plans from and what guards its commits.  It plans from the applied versions, and a commit
goes through while the stored ledger is at the revision of the ledger that the driver keeps.  Main
statement: both know the same versions after the driver was attached and after every scan that succeeds,
no commit parts them, and a call about a setting parts them exactly if the ledger that it finds has other
versions than the applied ones.
-/
namespace EngineMigrate

/-- The ledger that the first reply of a conversation shows, if it shows one. -/
def firstLook : List Turn → Option Ledger
  | [] => none
  | turn :: _ => match LedgerStore.found turn.reply with
    | .ok st => some st.upgrade
    | .error _ => none

namespace CatalogTracker

/-- After a conversation a tracker keeps the versions that the first reply shows. -/
def Rereads (t : CatalogTracker) (log : List Turn) (t' : CatalogTracker) : Prop :=
  t'.pending = t.pending ∧ t'.ledger.versions = ((firstLook log).getD t.ledger).versions

theorem rereads_getSetting {name : String} {t t' : CatalogTracker} {log : List Turn}
    {r : Except TrackingFault String} (h : (getSetting name t).Runs log (r, t')) : t.Rereads log t' := by
  rw [getSetting_apply] at h
  cases hn : Settings.defaultOf name with
  | error e =>
    rw [hn] at h
    obtain ⟨rfl, h⟩ := h
    cases h
    exact ⟨rfl, rfl⟩
  | ok default =>
    rw [hn] at h
    obtain ⟨reply, rest, rfl, rfl, h⟩ := h
    simp only [Rereads, firstLook]
    cases hst : LedgerStore.found reply with
    | error e =>
      rw [hst] at h
      cases h
      exact ⟨rfl, rfl⟩
    | ok st =>
      rw [hst] at h
      cases h
      exact ⟨rfl, rfl⟩

theorem versions_of_writeSettings {l : Ledger} {settings : Settings} {t t' : CatalogTracker}
    {log : List Turn} {r : Except TrackingFault Unit} (ht : t.ledger = l)
    (h : ((ask (fun s => s.writeChecked { l with settings := settings }) >>= keep) t).Runs log (r, t')) :
    t'.pending = t.pending ∧ t'.ledger.versions = l.versions := by
  subst ht
  rw [ask_writeChecked_apply] at h
  obtain ⟨reply, rest, rfl, h⟩ := h
  cases hst : LedgerStore.found reply with
  | error e =>
    simp only [hst] at h
    obtain ⟨rfl, h⟩ := h
    cases h
    exact ⟨rfl, rfl⟩
  | ok st =>
    simp only [hst] at h
    split at h
    · obtain ⟨reply', rest', rfl, rfl, h⟩ := h
      cases hw : LedgerStore.written reply' with
      | error e =>
        rw [hw] at h
        cases h
        exact ⟨rfl, rfl⟩
      | ok u =>
        rw [hw] at h
        cases h
        exact ⟨rfl, rfl⟩
    · obtain ⟨rfl, h⟩ := h
      cases h
      exact ⟨rfl, rfl⟩

theorem rereads_updateSetting {name value : String} {t t' : CatalogTracker} {log : List Turn}
    {r : Except TrackingFault Unit} (h : (updateSetting name value t).Runs log (r, t')) :
    t.Rereads log t' := by
  rw [updateSetting_apply] at h
  cases hn : Settings.defaultOf name with
  | error e =>
    rw [hn] at h
    obtain ⟨rfl, h⟩ := h
    cases h
    exact ⟨rfl, rfl⟩
  | ok default =>
    rw [hn] at h
    obtain ⟨reply, rest, rfl, h⟩ := h
    simp only [Rereads, firstLook]
    cases hst : LedgerStore.found reply with
    | error e =>
      simp only [hst] at h
      obtain ⟨rfl, h⟩ := h
      cases h
      exact ⟨rfl, rfl⟩
    | ok st =>
      simp only [hst] at h
      exact versions_of_writeSettings (t := { t with ledger := st.upgrade }) rfl h

end CatalogTracker

namespace Driver

/-- The driver keeps a ledger, and no commit is under way. -/
def KeepsLedger (d : Driver) : Prop := ∃ t, d.tracker = .catalog t ∧ t.pending = none

/-- The applied versions are those of the kept ledger. -/
def InStep (d : Driver) : Prop :=
  ∃ t, d.tracker = .catalog t ∧ ∀ v, v ∈ t.ledger.versions ↔ v ∈ d.applied

/-- The driver keeps a ledger, and is in step with it if `P`. -/
def Follows (P : Prop) (d : Driver) (_ : List Turn) : Prop := d.KeepsLedger ∧ (P → d.InStep)

variable {P : Prop} {log : List Turn}

theorem follows_free (d : Driver) (b : Bool) (log : List Turn) (h : d.Follows P log) :
    Follows P { d with locked := b } log := h

theorem Follows.afterAbort {d : Driver} (h : d.Follows P log) (log' : List Turn) :
    d.afterAbort.Follows P log' := by
  obtain ⟨⟨t, ht, hidle⟩, hstep⟩ := h
  have haborted : d.afterAbort.tracker = .catalog t.aborted := congrArg Tracker.aborted ht
  refine ⟨⟨t.aborted, haborted, rfl⟩, fun hp => ?_⟩
  obtain ⟨t', ht', hv⟩ := hstep hp
  obtain rfl := Tracker.catalog.inj (ht.symm.trans ht')
  exact ⟨t.aborted, haborted, hv⟩

theorem Follows.succeeded {d : Driver} (h : d.Follows P log) (s : Session) (log' : List Turn) :
    (d.succeeded s).Follows P log' := by
  obtain ⟨⟨t, ht, hidle⟩, hstep⟩ := h
  have htracker : (d.succeeded s).tracker = (Tracker.catalog t).succeeded s.changes :=
    congrArg (Tracker.succeeded s.changes) ht
  cases hc : s.changes with
  | nil =>
    rw [hc] at htracker
    have hledger : t.committed.ledger = t.ledger := by simp [CatalogTracker.committed, hidle]
    refine ⟨⟨_, htracker, rfl⟩, fun hp => ⟨_, htracker, fun v => ?_⟩⟩
    obtain ⟨t', ht', hv⟩ := hstep hp
    obtain rfl := Tracker.catalog.inj (ht.symm.trans ht')
    rw [hledger]
    simpa [Driver.succeeded, hc, Change.applyAll] using hv v
  | cons c cs =>
    rw [hc] at htracker
    refine ⟨⟨_, htracker, rfl⟩, fun hp => ⟨_, htracker, fun v => ?_⟩⟩
    obtain ⟨t', ht', hv⟩ := hstep hp
    obtain rfl := Tracker.catalog.inj (ht.symm.trans ht')
    have hchanges := Change.mem_versions_enterAll hv s.changes v
    rw [hc] at hchanges
    simpa [Driver.succeeded, hc, CatalogTracker.successor, Ledger.versions] using hchanges

theorem maintains_commit_follows (s : Session) : Action.Maintains .log (Follows P) (commit s) := by
  intro d log h
  cases hs : s.isEmpty with
  | true =>
    rw [commit_of_isEmpty hs]
    exact h
  | false =>
    rw [commit_eq hs]
    apply (Exchange.always_true Peer.admits_log _ log).bind
    intro r log' _
    cases r with
    | error e => exact h.afterAbort log'
    | ok u =>
      apply (Exchange.always_true Peer.admits_log _ log').bind
      intro r log'' _
      cases r with
      | error e => exact h.afterAbort log''
      | ok u => exact h.succeeded s log''

theorem always_scan_follows {d : Driver} (h : d.Follows P log) :
    (scan d).Always .log (fun r log' => r.2.Follows P log' ∧ (r.1 = .ok () → r.2.InStep)) log := by
  obtain ⟨tracker, applied, locked, skip⟩ := d
  obtain ⟨⟨t, rfl, hidle⟩, hstep⟩ := h
  rw [scan_catalog]
  refine ⟨trivial, fun reply log' _ => ?_⟩
  rw [Exchange.always_done]
  cases LedgerStore.found reply with
  | error e => exact ⟨⟨⟨t, rfl, hidle⟩, hstep⟩, by simp⟩
  | ok st =>
    have hin : InStep ⟨.catalog { t with ledger := st.upgrade }, .ofList st.upgrade.versions, locked,
        skip⟩ := ⟨_, rfl, fun v => by simp [VersionSet.mem_ofList]⟩
    exact ⟨⟨⟨_, rfl, hidle⟩, fun _ => hin⟩, fun _ => hin⟩

theorem maintains_scan_follows : Action.Maintains .log (Follows P) scan :=
  fun _ _ h => (always_scan_follows h).mono fun _ _ hr => hr.1

theorem runs_track {α : Type} {f : Tables → Attempt TrackingFault α} {g : CatalogTracker.Act α}
    {d d' : Driver} {t : CatalogTracker} {r : Except DriverFault α} (ht : d.tracker = .catalog t)
    (h : (track (Tracker.act f g) d).Runs log (r, d')) :
    ∃ x t', (g t).Runs log (x, t') ∧ d' = { d with tracker := .catalog t' } := by
  obtain ⟨tracker, applied, locked, skip⟩ := d
  cases ht
  rw [track_catalog, Exchange.runs_bind] at h
  obtain ⟨⟨x, t'⟩, first, rest, rfl, hg, rfl, h⟩ := h
  cases h
  rw [List.append_nil]
  exact ⟨x, t', hg, rfl⟩

/-- An attached driver has scanned. -/
theorem inStep_of_attach {config : Config} {skip : Bool} {d : Driver}
    (h : (ExceptT.run (attach (.ofCapability config .datasources) skip)).Runs log (.ok d)) :
    d.KeepsLedger ∧ d.InStep := by
  have hprepare : (track Tracker.prepare (start (.ofCapability config .datasources) skip)).Always .log
      (fun r log => r.2.Follows False log) [] := by
    rw [start, Tracker.ofCapability, Tracker.prepare, track_catalog]
    have hidle : CatalogTracker.Idle ⟨config.paths.metadata, config.paths.v2Query, config.source,
        Ledger.empty, none⟩ [] := rfl
    apply (CatalogTracker.maintains_prepare _ [] hidle).bind
    intro r log hidle
    exact ⟨⟨_, rfl, hidle⟩, False.elim⟩
  have hattach : (ExceptT.run (attach (.ofCapability config .datasources) skip)).Always .log
      (fun r log => ∀ d, r = .ok d → d.Follows False log ∧ d.InStep) [] := by
    apply always_attach
    rw [Action.bind_apply]
    apply hprepare.bind
    intro r log hr
    obtain ⟨r, d'⟩ := r
    cases r with
    | error e => simp
    | ok u => exact (always_scan_follows hr).mono fun r log' hr' hok => ⟨hr'.1, hr'.2 hok⟩
  obtain ⟨⟨hkeeps, -⟩, hstep⟩ := hattach.of_runs h d rfl
  exact ⟨hkeeps, hstep⟩

/-- A commit of changes that succeeds has looked at the ledger first, and found it at the revision of the
one that the driver keeps. -/
theorem found_of_unlock {d d' : Driver} {t : CatalogTracker} {s : Session}
    (ht : d.tracker = .catalog t) (hs : s.changes ≠ []) (h : (unlock s d).Runs log (.ok (), d')) :
    ∃ turn rest st, log = turn :: rest ∧ LedgerStore.found turn.reply = .ok st ∧
      st.revision = t.ledger.revision := by
  have hchanges : s.changes.isEmpty = false := by simpa using hs
  have hempty : s.isEmpty = false := by simp [Session.isEmpty, hchanges]
  have hcheck : d.check s = .send t.store.readRequest fun reply => .done (checked t reply) := by
    simp only [check, ht, hchanges, Bool.false_eq_true, if_false]
  obtain ⟨d'', hcommit, -⟩ := runs_unlock_iff.1 h
  rcases runs_commit hempty hcommit with ⟨e, -, hr, -⟩ | ⟨look, sent, rfl, hlook, -, -⟩
  · cases hr
  · rw [hcheck] at hlook
    obtain ⟨reply, rest, rfl, rfl, hchecked⟩ := hlook
    refine ⟨⟨t.store.readRequest, reply⟩, sent, ?_⟩
    simp only [checked] at hchecked
    cases hst : LedgerStore.found reply with
    | error e =>
      rw [hst] at hchecked
      cases hchecked
    | ok st =>
      simp only [hst] at hchecked
      by_cases hr : st.revision = t.ledger.revision
      · exact ⟨st, rfl, rfl, hr⟩
      · simp only [hr, if_false] at hchecked
        cases hchecked

end Driver

theorem Desk.runs_drive {α : Type} {x : Driver.Act α} {k k' : Desk} {log : List Turn}
    {r : Except DriverFault α} (h : (drive x k).Runs log (r, k')) :
    (x k.driver).Runs log (r, k'.driver) ∧ k'.session = k.session := by
  rw [drive, Action.focus_apply, Exchange.runs_bind] at h
  obtain ⟨⟨x', d⟩, first, rest, rfl, hx, rfl, h⟩ := h
  cases h
  rw [List.append_nil, mapError_id]
  exact ⟨hx, rfl⟩

def Call.IsSetting : Call → Prop
  | .getSetting _ | .updateSetting _ _ => True
  | _ => False

namespace Call

variable {c : Call} {k k' : Desk} {log : List Turn} {r : Except DriverFault Unit}

theorem rereads (hc : c.IsSetting) {t : CatalogTracker} (ht : k.driver.tracker = .catalog t)
    (h : (c.perform k).Runs log (r, k')) :
    ∃ t', t.Rereads log t' ∧ k'.driver = { k.driver with tracker := .catalog t' } := by
  cases c with
  | getSetting name =>
    simp only [perform, Action.bind_apply, Exchange.runs_bind] at h
    obtain ⟨⟨r', k₁⟩, first, rest, rfl, h, hend⟩ := h
    obtain ⟨x, t', hg, hd⟩ := Driver.runs_track ht (Desk.runs_drive h).1
    have hrest : rest = [] ∧ k' = k₁ := by
      cases r' <;> obtain ⟨rfl, hend⟩ := hend <;> cases hend <;> exact ⟨rfl, rfl⟩
    obtain ⟨rfl, rfl⟩ := hrest
    rw [List.append_nil]
    exact ⟨t', CatalogTracker.rereads_getSetting hg, hd⟩
  | updateSetting name value =>
    obtain ⟨x, t', hg, hd⟩ := Driver.runs_track ht (Desk.runs_drive h).1
    exact ⟨t', CatalogTracker.rereads_updateSetting hg, hd⟩
  | _ => exact absurd hc id

theorem found_of_changes {t : CatalogTracker} (ht : k.driver.tracker = .catalog t)
    (hc : c.changes k ≠ []) (h : (c.perform k).Runs log (.ok (), k')) :
    ∃ turn rest st, log = turn :: rest ∧ LedgerStore.found turn.reply = .ok st ∧
      st.revision = t.ledger.revision := by
  cases c with
  | unlock =>
    obtain ⟨d, session⟩ := k
    cases session with
    | none => exact absurd rfl hc
    | some s => exact Driver.found_of_unlock ht hc (Desk.runs_drive h).1
  | record c =>
    have h := (Desk.runs_drive h).1
    rw [Driver.record_apply] at h
    split at h
    · obtain ⟨-, h⟩ := h
      cases h
    · exact Driver.found_of_unlock (d := { k.driver with locked := true }) ht
        (by simp [Session.change]) h
  | _ => exact absurd rfl hc

end Call

/-- One call of the owner of a driver, as it went. -/
structure Leg where
  call : Call
  before : Desk
  log : List Turn
  result : Except DriverFault Unit
  after : Desk
  runs : (call.perform before).Runs log (result, after)

namespace Leg

/-- If the call is about a setting and finds a ledger, that has the versions that are applied. -/
def Faithful (l : Leg) : Prop :=
  l.call.IsSetting → ∀ m, firstLook l.log = some m → ∀ v, v ∈ m.versions ↔ v ∈ l.before.driver.applied

/-- What the driver has applied and what the commit finds on the server is one and the same: the
versions of the kept ledger, whose revision the ledger found still has. -/
def Guarded (l : Leg) : Prop :=
  ∃ t turn rest st, l.before.driver.tracker = .catalog t ∧
    (∀ v, v ∈ t.ledger.versions ↔ v ∈ l.before.driver.applied) ∧ l.log = turn :: rest ∧
    LedgerStore.found turn.reply = .ok st ∧ st.revision = t.ledger.revision

variable {l : Leg}

theorem follows {P : Prop} (hc : ¬ l.call.IsSetting) (h : l.before.driver.Follows P []) :
    l.after.driver.Follows P l.log := by
  have hcall : (l.call.perform l.before).Always .log (fun r log =>
      r.2.Holds (Driver.Follows P) (fun _ => True) log) [] :=
    Call.always_perform Driver.follows_free (fun _ => Driver.maintains_scan_follows)
      (fun s _ _ => Driver.maintains_commit_follows s)
      (fun name h => absurd (by rw [h]; trivial) hc)
      (fun name value h => absurd (by rw [h]; trivial) hc)
      (by cases l.call <;> simp [Call.Stages]) ⟨h, by simp [Session.Holds]⟩
  exact (hcall.of_runs l.runs).1

theorem keepsLedger (h : l.before.driver.KeepsLedger) : l.after.driver.KeepsLedger := by
  by_cases hc : l.call.IsSetting
  · obtain ⟨t, ht, hidle⟩ := h
    obtain ⟨t', ⟨hpending, -⟩, hafter⟩ := Call.rereads hc ht l.runs
    exact ⟨t', by rw [hafter], hpending.trans hidle⟩
  · exact (follows (P := False) hc ⟨h, False.elim⟩).1

theorem inStep_of_faithful (h : l.before.driver.KeepsLedger) (hin : l.before.driver.InStep)
    (hf : l.Faithful) : l.after.driver.InStep := by
  by_cases hc : l.call.IsSetting
  · obtain ⟨t, ht, hv⟩ := hin
    obtain ⟨t', ⟨-, hversions⟩, hafter⟩ := Call.rereads hc ht l.runs
    refine ⟨t', by rw [hafter], fun v => ?_⟩
    rw [hversions, hafter]
    cases hlook : firstLook l.log with
    | none => exact hv v
    | some m => exact hf hc m hlook v
  · exact (follows (P := True) hc ⟨h, fun _ => hin⟩).2 trivial

/-- A call about a setting that leaves a driver in step has found the applied versions. -/
theorem faithful_of_inStep (h : l.before.driver.KeepsLedger) (hin : l.after.driver.InStep) :
    l.Faithful := by
  intro hc m hlook v
  obtain ⟨t, ht, -⟩ := h
  obtain ⟨t', ⟨-, hversions⟩, hafter⟩ := Call.rereads hc ht l.runs
  obtain ⟨t'', ht'', hv⟩ := hin
  rw [hafter] at ht'' hv
  obtain rfl := Tracker.catalog.inj ht''
  rw [hlook, Option.getD_some] at hversions
  rw [← hversions]
  exact hv v

theorem inStep_of_scan (h : l.before.driver.KeepsLedger) (hc : l.call = .scan)
    (hr : l.result = .ok ()) : l.after.driver.InStep := by
  have hrun := l.runs
  rw [hc, hr] at hrun
  have hfollows : l.before.driver.Follows False [] := ⟨h, False.elim⟩
  have hscan := Driver.always_scan_follows hfollows
  exact (hscan.of_runs (Desk.runs_drive hrun).1).2 rfl

theorem guarded_of_inStep (h : l.before.driver.InStep) (hc : l.call.changes l.before ≠ [])
    (hr : l.result = .ok ()) : l.Guarded := by
  obtain ⟨t, ht, hv⟩ := h
  obtain ⟨turn, rest, st, hlog, hst, hrevision⟩ := Call.found_of_changes ht hc (hr ▸ l.runs)
  exact ⟨t, turn, rest, st, ht, hv, hlog, hst, hrevision⟩

end Leg

/-- The use of an attached driver, the latest call first. -/
inductive Use (d : Driver) : List Leg → Desk → Prop where
  | attached : Use d [] ⟨d, none⟩
  | call {legs : List Leg} (l : Leg) (h : Use d legs l.before) : Use d (l :: legs) l.after

namespace Use

variable {d : Driver} {legs : List Leg} {k : Desk}

theorem keepsLedger (hd : d.KeepsLedger) (h : Use d legs k) :
    k.driver.KeepsLedger ∧ ∀ l ∈ legs, l.before.driver.KeepsLedger := by
  induction h with
  | attached => exact ⟨hd, by simp⟩
  | call l h ih => exact ⟨l.keepsLedger ih.1, List.forall_mem_cons.2 ih⟩

theorem inStep_of_faithful (hd : d.KeepsLedger) (hs : d.InStep) (h : Use d legs k)
    (hf : ∀ l ∈ legs, l.Faithful) : k.driver.InStep ∧ ∀ l ∈ legs, l.after.driver.InStep := by
  induction h with
  | attached => exact ⟨hs, by simp⟩
  | call l h ih =>
    obtain ⟨hl, hlegs⟩ := List.forall_mem_cons.1 hf
    obtain ⟨hbefore, hall⟩ := ih hlegs
    have hafter := l.inStep_of_faithful (h.keepsLedger hd).1 hbefore hl
    exact ⟨hafter, List.forall_mem_cons.2 ⟨hafter, hall⟩⟩

/-- What a driver plans from is what its commits are guarded by, from the attachment on and through any
calls with any replies, exactly as long as the calls about settings find the applied versions.  A scan
that succeeds brings both together again, and a commit made while they agree is guarded. -/
theorem inStep_iff_faithful {config : Config} {skip : Bool} {log : List Turn}
    (hattach : (ExceptT.run (Driver.attach (.ofCapability config .datasources) skip)).Runs log (.ok d))
    (huse : Use d legs k) :
    d.InStep ∧
    ((∀ l ∈ legs, l.after.driver.InStep) ↔ ∀ l ∈ legs, l.Faithful) ∧
    ∀ l ∈ legs,
      (l.call = .scan → l.result = .ok () → l.after.driver.InStep) ∧
      (l.before.driver.InStep → (l.after.driver.InStep ↔ l.Faithful)) ∧
      (l.before.driver.InStep → l.call.changes l.before ≠ [] → l.result = .ok () → l.Guarded) := by
  obtain ⟨hkeeps, hin⟩ := Driver.inStep_of_attach hattach
  have hbefore := (huse.keepsLedger hkeeps).2
  refine ⟨hin, ⟨fun hall l hl => ?_, fun hall => (huse.inStep_of_faithful hkeeps hin hall).2⟩,
    fun l hl => ⟨l.inStep_of_scan (hbefore l hl), fun hstep => ⟨?_, ?_⟩, l.guarded_of_inStep⟩⟩
  · exact l.faithful_of_inStep (hbefore l hl) (hall l hl)
  · exact l.faithful_of_inStep (hbefore l hl)
  · exact l.inStep_of_faithful (hbefore l hl) hstep

end Use

/-! A driver whose server another driver has given a version meanwhile. -/

namespace Driver

def oneVersionBody : ByteArray := (Json.Value.ofMembers [("cli_state", oneVersion.toJson)]).compact.toUTF8

theorem catalog_oneVersionBody :
    Catalog.ofBytes? oneVersionBody = some ⟨"", some oneVersion.toJson, none⟩ := by
  decide +kernel

theorem found_oneVersionBody : LedgerStore.found (.ok ⟨200, oneVersionBody⟩) = .ok (.current oneVersion) := by
  rw [LedgerStore.found_of_body catalog_oneVersionBody]
  exact Ledger.decode_toJson ⟨rfl, Json.Members.sorted_nil, fun _ _ => rfl⟩

/-- The driver after it has asked for its setting: it has kept the ledger and not its version. -/
def behind : Driver :=
  ⟨.catalog ⟨Config.default.paths.metadata, Config.default.paths.v2Query, Config.default.source,
    oneVersion, none⟩, .empty, false, false⟩

theorem not_inStep_behind : ¬ behind.InStep := by
  rintro ⟨t, ht, hv⟩
  obtain rfl := Tracker.catalog.inj ht
  have hfive : 5 ∈ oneVersion.versions := by decide +kernel
  have happlied := (hv 5).1 hfive
  exact absurd happlied (by decide)

/-- Between the attachment and the question another driver has recorded a version.  The driver does not
have it applied, yet the ledger it keeps has it, and a commit would go through. -/
theorem applied_behind_ledger :
    (ExceptT.run (attach (.ofCapability .default .datasources) false)).Leads
      (Server.peer fun _ _ _ => False) (storing Ledger.empty.advance) (.ok onEmptyLedger)
      (storing Ledger.empty.advance) ∧
    (Call.perform (.record (.record 5 none)) ⟨onEmptyLedger, none⟩).Leads
      (Server.peer fun _ _ _ => False) (storing Ledger.empty.advance)
      (.ok (), ⟨onEmptyLedger.succeeded recordFive, none⟩) (storing oneVersion) ∧
    (Call.perform (.getSetting "migration_mode") ⟨onEmptyLedger, none⟩).Leads
      (Server.peer fun _ _ _ => False) (storing oneVersion) (.ok (), ⟨behind, none⟩)
      (storing oneVersion) ∧
    ¬ behind.InStep ∧
    (behind.check recordFive).Leads (Server.peer fun _ _ _ => False) (storing oneVersion) (.ok ())
      (storing oneVersion) := by
  have hname : Settings.defaultOf "migration_mode" = .ok "true" := rfl
  have hbody (store : LedgerStore) : Server.Handles (fun _ _ _ => False) (storing oneVersion)
      store.readRequest (.ok ⟨200, oneVersionBody⟩) (storing oneVersion) :=
    .executed rfl rfl (.read _ rfl rfl catalog_oneVersionBody rfl)
  refine ⟨leads_attach_onEmptyLedger, leads_record_five, ?_, not_inStep_behind, ?_⟩
  · simp only [Call.perform, Action.bind_apply, Desk.drive, Action.focus_apply, onEmptyLedger, getSetting,
      Tracker.getSetting, track_catalog, CatalogTracker.getSetting_apply, hname, Exchange.send_bind,
      Exchange.done_bind]
    refine .send (hbody _) ?_
    simp only [found_oneVersionBody]
    exact .done _ _
  · have hcheck : behind.check recordFive =
        .send (LedgerStore.readRequest ⟨Config.default.paths.metadata⟩)
          fun reply => .done (checked ⟨_, _, _, oneVersion, none⟩ reply) := rfl
    rw [hcheck]
    refine .send (hbody _) ?_
    rw [checked_of_found found_oneVersionBody rfl]
    exact .done _ _

end Driver

/-- The question about the setting, with the reply of that server. -/
def overtakenLeg : Leg where
  call := .getSetting "migration_mode"
  before := ⟨Driver.onEmptyLedger, none⟩
  log := [⟨LedgerStore.readRequest ⟨Config.default.paths.metadata⟩, .ok ⟨200, Driver.oneVersionBody⟩⟩]
  result := .ok ()
  after := ⟨Driver.behind, none⟩
  runs := by
    have hname : Settings.defaultOf "migration_mode" = .ok "true" := rfl
    simp only [Call.perform, Action.bind_apply, Desk.drive, Action.focus_apply, Driver.onEmptyLedger,
      Driver.getSetting, Tracker.getSetting, Driver.track_catalog, CatalogTracker.getSetting_apply, hname,
      Exchange.send_bind, Exchange.done_bind]
    refine .cons ?_
    simp only [Driver.found_oneVersionBody]
    exact ⟨rfl, rfl⟩

theorem runs_attach_onEmptyLedger :
    (ExceptT.run (Driver.attach (.ofCapability .default .datasources) false)).Runs
      [⟨LedgerStore.readRequest ⟨Config.default.paths.metadata⟩, .ok ⟨200, Driver.emptyLedgerBody⟩⟩,
        ⟨LedgerStore.readRequest ⟨Config.default.paths.metadata⟩, .ok ⟨200, Driver.emptyLedgerBody⟩⟩]
      (.ok Driver.onEmptyLedger) := by
  simp only [Driver.attach, Driver.start, Tracker.prepare, Tracker.ofCapability, Action.bind_apply,
    Driver.track_catalog]
  simp only [CatalogTracker.prepare_apply, Exchange.send_bind]
  refine .cons ?_
  simp only [Driver.found_emptyLedgerBody, StoredLedger.needsUpgrade, Bool.false_eq_true, if_false,
    Exchange.done_bind, mapError_ok, Driver.scan_catalog, Exchange.send_bind]
  refine .cons ?_
  simp only [Driver.found_emptyLedgerBody]
  exact ⟨rfl, rfl⟩

/-- The question parts the driver from its ledger, as the reply had another version. -/
theorem Use.not_faithful_overtaken :
    Use Driver.onEmptyLedger [overtakenLeg] overtakenLeg.after ∧ Driver.onEmptyLedger.InStep ∧
      ¬ overtakenLeg.Faithful := by
  have huse : Use Driver.onEmptyLedger [overtakenLeg] overtakenLeg.after := .call overtakenLeg .attached
  obtain ⟨hin, hiff, -⟩ := inStep_iff_faithful runs_attach_onEmptyLedger huse
  refine ⟨huse, hin, fun hf => ?_⟩
  have hafter := hiff.2 (by simpa using hf) overtakenLeg (by simp)
  exact Driver.not_inStep_behind hafter

end EngineMigrate
