import EngineMigrate.Driver.Driver
import EngineMigrate.Proofs.LedgerTraffic
import EngineMigrate.Proofs.TablesTraffic

/-!
What a driver sends.  A question for the version is one request, and so is a scan.  Whatever the tracker, a
commit is a check, then the bulks in order up to the first that is refused, then one of two states: the
driver after the commit or the driver as it was.
-/
namespace EngineMigrate

def Batch.toRequest (b : Batch) : Request := ⟨.post, b.path, some b.request⟩

@[simp] theorem SqlRoute.isSql_operation (r : SqlRoute) (args : SqlArgs) :
    (r.operation args).isSql = true := by
  have hkind : (r.operation args).kind = "run_sql" := by cases r <;> rfl
  rw [Operation.isSql, hkind]
  decide +kernel

@[simp] theorem LedgerStore.isSql_writeOperation (l : Ledger) : (writeOperation l).isSql = false := by
  show ("set_catalog_state".endsWith "run_sql") = false
  decide +kernel

theorem CatalogTracker.items_batches (t : CatalogTracker) (bulk : Bulk) :
    (t.batches bulk).flatMap (fun b => b.bulk.items) = bulk.items := by
  have hb : ∀ r : Bool × Bulk, (if r.1 then (⟨t.queryPath, t.route.bulkSource, r.2⟩ : Batch)
      else ⟨t.metadataPath, none, r.2⟩).bulk = r.2 := fun r => by cases r.1 <;> rfl
  rw [List.flatMap_def, batches, List.map_map]
  simp only [Function.comp_def, hb]
  exact Bulk.items_splitBy Operation.isSql bulk

theorem CatalogTracker.items_ne_nil {t : CatalogTracker} {bulk : Bulk} {b : Batch}
    (h : b ∈ t.batches bulk) : b.bulk.items ≠ [] := by
  simp only [batches, Bulk.splitBy, List.map_map, List.mem_map] at h
  obtain ⟨r, hr, rfl⟩ := h
  have hne := ne_nil_of_mem_runsBy _ hr
  cases hk : r.1 <;> simpa [hk] using hne

namespace Capability

/-- The capability that the reply to a question for the version tells. -/
def told : Reply → Except VersionFault Capability
  | .error f => .error (.send f)
  | .ok response => match response.decode ServerInfo.ofBytes? with
    | .ok info => .ok info.capability
    | .error f => .error (.api f)

theorem told_eq_ok {reply : Reply} {c : Capability} (h : told reply = .ok c) :
    ∃ response info, reply = .ok response ∧ response.decode ServerInfo.ofBytes? = .ok info ∧
      info.capability = c := by
  cases reply with
  | error f => cases h
  | ok response =>
    simp only [told] at h
    cases hinfo : response.decode ServerInfo.ofBytes? with
    | error f => simp [hinfo] at h
    | ok info => exact ⟨response, info, rfl, hinfo, by simpa [hinfo] using h⟩

theorem run_detect (path : String) :
    ExceptT.run (detect path none) = .send ⟨.get, path, none⟩ fun reply => .done (told reply) := by
  simp only [detect, ServerInfo.probe, Attempt.run_bind, Attempt.run_within, Attempt.run_get,
    Attempt.run_ofExcept, Attempt.run_pure, Exchange.send_bind, Exchange.done_bind]
  apply Exchange.send_congr
  intro reply
  cases reply with
  | error f => rfl
  | ok response =>
    simp only [told]
    cases hinfo : response.decode ServerInfo.ofBytes? <;> simp [hinfo]

end Capability

namespace Tracker

/-- The bulk with what records the changes, if there are any. -/
def withRecords (changes : List Change) (bulk : Bulk) : Tracker → Bulk
  | .tables _ => Tables.stage changes bulk
  | .catalog t =>
    if changes.isEmpty then bulk
    else bulk.append (LedgerStore.writeOperation (t.successor changes)) none

def succeeded (changes : List Change) : Tracker → Tracker
  | .tables t => .tables t
  | .catalog t =>
    if changes.isEmpty then .catalog t.committed
    else .catalog { t with ledger := t.successor changes, pending := none }

def Settled (t : Tracker) : Prop := t.aborted = t

@[simp] theorem aborted_aborted (t : Tracker) : t.aborted.aborted = t.aborted := by
  cases t <;> rfl

theorem settled_aborted (t : Tracker) : t.aborted.Settled := aborted_aborted t

theorem settled_catalog_iff {t : CatalogTracker} : Settled (.catalog t) ↔ t.pending = none := by
  obtain ⟨metadataPath, queryPath, source, ledger, pending⟩ := t
  cases pending <;> simp [Settled, aborted, CatalogTracker.aborted]

theorem settled_succeeded (t : Tracker) (changes : List Change) : (t.succeeded changes).Settled := by
  cases t with
  | tables t => rfl
  | catalog t => cases changes <;> rfl

end Tracker

namespace Driver

/-- The batches of a commit, in the order in which to send them. -/
def commitBatches (d : Driver) (s : Session) : List Batch :=
  d.tracker.batches (d.tracker.withRecords s.changes s.bulk)

/-- The requests before the first batch: the ledger is looked at again before it is written. -/
def checkRequests (d : Driver) (s : Session) : List Request :=
  match d.tracker with
  | .tables _ => []
  | .catalog t => if s.changes.isEmpty then [] else [t.store.readRequest]

def checked (t : CatalogTracker) (reply : Reply) : Except DriverFault Unit :=
  match LedgerStore.found reply with
  | .error e => .error (.tracking (.catalog e))
  | .ok st =>
    if st.revision = t.ledger.revision then .ok ()
    else .error (.tracking (.catalog (.concurrentModification t.ledger.revision st.revision)))

theorem checked_of_found {t : CatalogTracker} {reply : Reply} {st : StoredLedger}
    (h : LedgerStore.found reply = .ok st) (hrevision : st.revision = t.ledger.revision) :
    checked t reply = .ok () := by
  simp only [checked, h, hrevision, if_true]

/-- The look at the ledger, where there is something to write. -/
def check (d : Driver) (s : Session) : Exchange (Except DriverFault Unit) :=
  match d.tracker with
  | .tables _ => .done (.ok ())
  | .catalog t =>
    if s.changes.isEmpty then .done (.ok ())
    else .send t.store.readRequest fun reply => .done (checked t reply)

def succeeded (d : Driver) (s : Session) : Driver :=
  { d with tracker := d.tracker.succeeded s.changes, applied := Change.applyAll d.applied s.changes }

/-- The driver while the ledger of a commit is on its way. -/
def staging (d : Driver) (s : Session) : Driver :=
  match d.tracker with
  | .tables _ => d
  | .catalog t =>
    if s.changes.isEmpty then d
    else { d with tracker := .catalog { t with pending := some (t.successor s.changes) } }

theorem afterAbort_staging (d : Driver) (s : Session) : (d.staging s).afterAbort = d.afterAbort := by
  obtain ⟨tracker, applied, locked, skip⟩ := d
  cases tracker with
  | tables t => rfl
  | catalog t => cases h : s.changes.isEmpty <;> simp [staging, afterAbort, h, Tracker.aborted,
      CatalogTracker.aborted]

theorem afterCommit_staging (d : Driver) (s : Session) :
    (d.staging s).afterCommit s.changes = d.succeeded s := by
  obtain ⟨tracker, applied, locked, skip⟩ := d
  cases tracker with
  | tables t => rfl
  | catalog t => cases h : s.changes.isEmpty <;> simp [staging, afterCommit, succeeded, h,
      Tracker.committed, Tracker.succeeded, CatalogTracker.committed]

theorem stage_eq (s : Session) (d : Driver) (h : s.changes.isEmpty = false) :
    track (Tracker.stage s.changes s.bulk) d = d.check s >>= fun r => .done (match r with
      | .error e => (.error e, d)
      | .ok () => (.ok (d.tracker.withRecords s.changes s.bulk), d.staging s)) := by
  obtain ⟨tracker, applied, locked, skip⟩ := d
  cases tracker with
  | tables t => rfl
  | catalog t =>
    simp only [track, Action.focus_apply, Tracker.stage, Tracker.act, CatalogTracker.stage_apply,
      check, h, Exchange.send_bind, Exchange.done_bind, checked, Bool.false_eq_true, if_false]
    apply Exchange.send_congr
    intro reply
    cases LedgerStore.found reply with
    | error e => rfl
    | ok st =>
      by_cases hr : st.revision = t.ledger.revision <;>
        simp [hr, staging, h, Tracker.withRecords]

theorem batches_staging (d : Driver) (s : Session) (b : Bulk) :
    (d.staging s).tracker.batches b = d.tracker.batches b := by
  obtain ⟨tracker, applied, locked, skip⟩ := d
  cases tracker with
  | tables t => rfl
  | catalog t =>
    cases h : s.changes.isEmpty with
    | true => simp [staging, h]
    | false =>
      simp only [staging, h, Bool.false_eq_true, if_false]
      rfl

theorem transmit_eq (s : Session) (d : Driver) :
    transmit s d = d.check s >>= fun r => match r with
      | .error e => .done (.error e, d)
      | .ok () => ExceptT.run (sendBatches (d.commitBatches s)) >>= fun r => .done (r, d.staging s) := by
  cases h : s.changes.isEmpty with
  | true =>
    have hnil := List.isEmpty_iff.1 h
    obtain ⟨tracker, applied, locked, skip⟩ := d
    cases tracker <;>
      simp [transmit, hnil, check, commitBatches, Tracker.withRecords, staging, Tables.stage]
  | false =>
    simp only [transmit, h, Bool.false_eq_true, if_false, Action.bind_apply, stage_eq s d h,
      bind_assoc, Exchange.done_bind]
    apply bind_congr
    intro r
    cases r with
    | error e => rfl
    | ok u => simp [commitBatches, batches_staging]

theorem commitBatches_ne_nil {d : Driver} {s : Session} (h : s.isEmpty = false) :
    d.commitBatches s ≠ [] := by
  obtain ⟨tracker, applied, locked, skip⟩ := d
  cases tracker with
  | tables t => simp [commitBatches, Tracker.batches]
  | catalog t =>
    intro hnil
    have hitems := t.items_batches ((Tracker.catalog t).withRecords s.changes s.bulk)
    simp only [commitBatches, Tracker.batches] at hnil
    rw [hnil] at hitems
    cases hc : s.changes.isEmpty <;>
      simp_all [Tracker.withRecords, Session.isEmpty, Bulk.isEmpty]

/-- Short of its last batch, a commit carries nothing but operations of the session. -/
theorem items_take_commitBatches {d : Driver} {s : Session} {n : Nat}
    (hn : n < (d.commitBatches s).length) :
    ((d.commitBatches s).take n).flatMap (fun b => b.bulk.items) <+: s.bulk.items := by
  obtain ⟨tracker, applied, locked, skip⟩ := d
  cases tracker with
  | tables t =>
    have hzero : n = 0 := by simpa [commitBatches, Tracker.batches] using hn
    simp [hzero]
  | catalog t =>
    simp only [commitBatches, Tracker.batches] at hn ⊢
    have hall := t.items_batches ((Tracker.catalog t).withRecords s.changes s.bulk)
    have hne : ∀ b ∈ t.batches ((Tracker.catalog t).withRecords s.changes s.bulk),
        b.bulk.items ≠ [] := fun b => t.items_ne_nil
    generalize t.batches ((Tracker.catalog t).withRecords s.changes s.bulk) = bs at hn hall hne ⊢
    rw [← List.take_append_drop n bs, List.flatMap_append] at hall
    have hlast : (bs.drop n).flatMap (fun b => b.bulk.items) ≠ [] := by
      rw [List.drop_eq_getElem_cons hn, List.flatMap_cons]
      exact List.append_ne_nil_of_left_ne_nil (hne _ (List.getElem_mem hn)) _
    cases hc : s.changes.isEmpty with
    | true =>
      simp only [Tracker.withRecords, hc, if_true] at hall
      exact ⟨_, hall⟩
    | false =>
      simp only [Tracker.withRecords, hc, Bool.false_eq_true, if_false, Bulk.items_append] at hall
      have hprefix := List.prefix_append ((bs.take n).flatMap fun b => b.bulk.items)
        ((bs.drop n).flatMap fun b => b.bulk.items)
      rw [hall] at hprefix
      rcases List.prefix_concat_iff.1 hprefix with he | hp
      · rw [he] at hall
        exact absurd (List.append_cancel_left (hall.trans (List.append_nil _).symm)) hlast
      · exact hp

/-- What a batch of a commit carries: operations of the session only, or it is the last one and carries
the write of the ledger behind them. -/
theorem commitBatches_cases {d : Driver} {t : CatalogTracker} {s : Session} {sent rest : List Batch}
    {b : Batch} (ht : d.tracker = .catalog t) (h : d.commitBatches s = sent ++ b :: rest) :
    (b.bulk.items ⊆ s.bulk.items ∧ (rest = [] → s.changes.isEmpty = true)) ∨
      (rest = [] ∧ s.changes.isEmpty = false ∧ ∃ items, items ⊆ s.bulk.items ∧ b.bulk.items =
        items ++ [⟨LedgerStore.writeOperation (t.successor s.changes), none⟩]) := by
  by_cases hrest : rest = []
  · have hlength : sent.length < (d.commitBatches s).length := by simp [h]
    obtain ⟨items, hitems⟩ := items_take_commitBatches hlength
    rw [h, List.take_left] at hitems
    have hsub : items ⊆ s.bulk.items := fun x hx => hitems ▸ List.mem_append_right _ hx
    have hall := t.items_batches ((Tracker.catalog t).withRecords s.changes s.bulk)
    have hbatches : t.batches ((Tracker.catalog t).withRecords s.changes s.bulk) = sent ++ [b] := by
      rw [← hrest, ← h, commitBatches, ht, Tracker.batches]
    rw [hbatches, List.flatMap_append] at hall
    cases hc : s.changes.isEmpty with
    | true =>
      simp only [Tracker.withRecords, hc, if_true] at hall
      rw [← hitems] at hall
      have hb : b.bulk.items = items := by simpa using List.append_cancel_left hall
      exact .inl ⟨hb ▸ hsub, fun _ => rfl⟩
    | false =>
      simp only [Tracker.withRecords, hc, Bool.false_eq_true, if_false, Bulk.items_append] at hall
      rw [← hitems, List.append_assoc] at hall
      exact .inr ⟨hrest, rfl, items, hsub, by simpa using List.append_cancel_left hall⟩
  · have hlength : (sent ++ [b]).length < (d.commitBatches s).length := by
      have hpos := List.length_pos_iff.2 hrest
      simp [h, hpos]
    have hp := items_take_commitBatches hlength
    have htake : (d.commitBatches s).take (sent ++ [b]).length = sent ++ [b] := by
      have hsplit : sent ++ b :: rest = (sent ++ [b]) ++ rest := by simp
      rw [h, hsplit, List.take_left]
    rw [htake, List.flatMap_append] at hp
    refine .inl ⟨fun x hx => ?_, fun hnil => absurd hnil hrest⟩
    exact hp.subset (List.mem_append_right _ (by simpa using hx))

theorem commit_of_isEmpty {s : Session} (h : s.isEmpty = true) (d : Driver) :
    commit s d = .done (.ok (), d) := by
  simp [commit, h]

theorem commit_eq {s : Session} (h : s.isEmpty = false) (d : Driver) :
    commit s d = d.check s >>= fun r => match r with
      | .error e => .done (.error e, d.afterAbort)
      | .ok () => ExceptT.run (sendBatches (d.commitBatches s)) >>= fun r => .done (match r with
        | .ok () => (.ok (), d.succeeded s)
        | .error e => (.error e, d.afterAbort)) := by
  simp only [commit, h, Bool.false_eq_true, if_false, transmit_eq, bind_assoc]
  apply bind_congr
  intro r
  cases r with
  | error e => rfl
  | ok u =>
    simp only [bind_assoc, Exchange.done_bind]
    apply bind_congr
    intro r
    cases r with
    | error e => simp [afterAbort_staging]
    | ok u => simp [afterCommit_staging]

theorem runs_commit {d d' : Driver} {s : Session} {log : List Turn} {r : Except DriverFault Unit}
    (hs : s.isEmpty = false) (h : (commit s d).Runs log (r, d')) :
    (∃ e, (d.check s).Runs log (.error e) ∧ r = .error e ∧ d' = d.afterAbort) ∨
    ∃ look sent, log = look ++ sent ∧ (d.check s).Runs look (.ok ()) ∧
      (ExceptT.run (sendBatches (d.commitBatches s))).Runs sent r ∧
      (r = .ok () ∧ d' = d.succeeded s ∨ r ≠ .ok () ∧ d' = d.afterAbort) := by
  rw [commit_eq hs] at h
  obtain ⟨c, look, rest, rfl, hlook, h⟩ := Exchange.runs_bind.1 h
  cases c with
  | error e =>
    obtain ⟨rfl, hend⟩ := h
    cases hend
    exact .inl ⟨e, by simpa using hlook, rfl, rfl⟩
  | ok u =>
    obtain ⟨outcome, sent, rest, rfl, hsent, rfl, hend⟩ := Exchange.runs_bind.1 h
    cases outcome with
    | ok u =>
      cases hend
      exact .inr ⟨look, sent, by simp, hlook, hsent, .inl ⟨rfl, rfl⟩⟩
    | error e =>
      cases hend
      exact .inr ⟨look, sent, by simp, hlook, hsent, .inr ⟨by simp, rfl⟩⟩

theorem runs_unlock_iff {d d' : Driver} {s : Session} {log : List Turn} {r : Except DriverFault Unit} :
    (unlock s d).Runs log (r, d') ↔ ∃ d'', (commit s d).Runs log (r, d'') ∧ d' = d''.release := by
  constructor
  · intro h
    obtain ⟨⟨r', d''⟩, log, rest, rfl, hcommit, rfl, hend⟩ := Exchange.runs_bind.1 h
    cases hend
    exact ⟨d'', by simpa using hcommit, rfl⟩
  · rintro ⟨d'', hcommit, rfl⟩
    exact Exchange.runs_bind.2 ⟨(r, d''), log, [], by simp, hcommit, rfl, rfl⟩

def outcome (b : Batch) : Reply → Except DriverFault Unit
  | .error f => .error (.send f)
  | .ok response => match response.checked with
    | .ok _ => .ok ()
    | .error f => .error (.ofCommit f b.request b.bulk)

theorem outcome_of_isAccepted {b : Batch} {reply : Reply} (h : reply.isAccepted = true) :
    outcome b reply = .ok () := by
  cases reply with
  | error f => cases h
  | ok response =>
    have hs : response.isSuccess = true := h
    simp [outcome, Response.checked, hs]

theorem outcome_of_not_isAccepted {b : Batch} {reply : Reply} (h : reply.isAccepted = false) :
    ∃ e, outcome b reply = .error e := by
  cases reply with
  | error f => exact ⟨_, rfl⟩
  | ok response =>
    have hs : response.isSuccess = false := h
    simp [outcome, Response.checked, hs]

theorem run_sendBatches_cons (b : Batch) (rest : List Batch) :
    ExceptT.run (sendBatches (b :: rest)) = .send b.toRequest fun reply =>
      match outcome b reply with
      | .error e => .done (.error e)
      | .ok () => ExceptT.run (sendBatches rest) := by
  simp only [sendBatches, Attempt.run_bind, Attempt.run_within, Attempt.run_post,
    Exchange.send_bind, Exchange.done_bind, Batch.toRequest]
  apply Exchange.send_congr
  intro reply
  cases reply with
  | error f => rfl
  | ok response =>
    simp only [mapError_ok, outcome]
    cases response.checked <;> rfl

/-- The rule for sending batches: `I` holds of the batches that were accepted, of those still to be sent
and of the peer. -/
theorem always_sendBatches {κ : Type} {p : Peer κ} {I : List Batch → List Batch → κ → Prop}
    {post : Except DriverFault Unit → κ → Prop}
    (hdone : ∀ sent k, I sent [] k → post (.ok ()) k)
    (hsend : ∀ sent b rest k, I sent (b :: rest) k → p.admits k b.toRequest ∧
      ∀ reply k', p.answers k b.toRequest reply k' →
        (reply.isAccepted = true → I (sent ++ [b]) rest k') ∧
        (reply.isAccepted = false → ∀ e, post (.error e) k'))
    {bs : List Batch} {k : κ} (h : I [] bs k) : (ExceptT.run (sendBatches bs)).Always p post k := by
  suffices hall : ∀ rest sent k, I sent rest k → (ExceptT.run (sendBatches rest)).Always p post k from
    hall bs [] k h
  intro rest
  induction rest with
  | nil => exact hdone
  | cons b rest ih =>
    intro sent k h
    obtain ⟨hadmits, hanswers⟩ := hsend sent b rest k h
    rw [run_sendBatches_cons]
    refine ⟨hadmits, fun reply k' hr => ?_⟩
    obtain ⟨haccepted, hrejected⟩ := hanswers reply k' hr
    cases hs : reply.isAccepted with
    | true =>
      simp only [outcome_of_isAccepted hs]
      exact ih _ k' (haccepted hs)
    | false =>
      obtain ⟨e, he⟩ := outcome_of_not_isAccepted (b := b) hs
      simp only [he]
      exact hrejected hs e

theorem track_tables {α : Type} (f : Tables → Attempt TrackingFault α) (g : CatalogTracker.Act α)
    (t : Tables) (applied : VersionSet) (locked skip : Bool) :
    track (Tracker.act f g) ⟨.tables t, applied, locked, skip⟩ =
      ExceptT.run (f t) >>= fun r =>
        .done (r.mapError .tracking, ⟨.tables t, applied, locked, skip⟩) := by
  simp [track, Tracker.act]

theorem track_catalog {α : Type} (f : Tables → Attempt TrackingFault α) (g : CatalogTracker.Act α)
    (t : CatalogTracker) (applied : VersionSet) (locked skip : Bool) :
    track (Tracker.act f g) ⟨.catalog t, applied, locked, skip⟩ =
      g t >>= fun r =>
        .done (r.1.mapError .tracking, ⟨.catalog r.2, applied, locked, skip⟩) := by
  simp [track, Tracker.act]

theorem scan_tables (t : Tables) (applied : VersionSet) (locked skip : Bool) :
    scan ⟨.tables t, applied, locked, skip⟩ = .send (t.request .selectVersions) fun reply =>
      .done (match Tables.listed reply with
        | .error e => (.error (.tracking e), ⟨.tables t, applied, locked, skip⟩)
        | .ok es => (.ok (), ⟨.tables t, .ofList (es.map Entry.version), locked, skip⟩)) := by
  simp only [scan, Tracker.applied, Action.bind_apply, track_tables, Tables.run_applied,
    Exchange.send_bind, Exchange.done_bind]
  apply Exchange.send_congr
  intro reply
  cases h : Tables.listed reply <;> simp

theorem scan_catalog (t : CatalogTracker) (applied : VersionSet) (locked skip : Bool) :
    scan ⟨.catalog t, applied, locked, skip⟩ = .send t.store.readRequest fun reply =>
      .done (match LedgerStore.found reply with
        | .error e => (.error (.tracking (.catalog e)), ⟨.catalog t, applied, locked, skip⟩)
        | .ok st => (.ok (), ⟨.catalog { t with ledger := st.upgrade },
            .ofList st.upgrade.versions, locked, skip⟩)) := by
  simp only [scan, Tracker.applied, CatalogTracker.applied, Action.bind_apply, track_catalog,
    CatalogTracker.refresh_apply, Exchange.send_bind, Exchange.done_bind]
  apply Exchange.send_congr
  intro reply
  cases h : LedgerStore.found reply <;> simp [Ledger.versions]

end Driver

end EngineMigrate
