import EngineMigrate.Proofs.Conversation
import EngineMigrate.Tracking.CatalogTracker

/-!
The requests behind the ledger, one by one.  A read shows what its reply holds; a checked write is a read
and, if the revision is the expected one, a write.  What a tracker does is put together from these.
-/
namespace EngineMigrate

theorem StoredLedger.revision_upgrade (st : StoredLedger) : st.upgrade.revision = st.revision := by
  cases st with
  | current l => rfl
  | legacy l =>
    have h : ∀ (es : List Entry) (m : Ledger), (es.foldl Ledger.insert m).revision = m.revision := by
      intro es
      induction es with
      | nil => exact fun m => rfl
      | cons e es ih => exact fun m => ih (m.insert e)
    exact h l.entries _

namespace LedgerStore

def readRequest (s : LedgerStore) : Request := ⟨.post, s.path, some readOperation.toJson⟩

def writeRequest (s : LedgerStore) (l : Ledger) : Request :=
  ⟨.post, s.path, some (writeOperation l).toJson⟩

def found : Reply → Except CatalogFault StoredLedger
  | .error f => .error (.send f)
  | .ok response => match response.decode Catalog.ofBytes? with
    | .ok catalog => catalog.ledger
    | .error f => .error (.api f)

def written : Reply → Except CatalogFault Unit
  | .error f => .error (.send f)
  | .ok response => match response.checked with
    | .ok _ => .ok ()
    | .error f => .error (.api f)

theorem written_eq_ok_iff {reply : Reply} : written reply = .ok () ↔ reply.isAccepted = true := by
  cases reply with
  | error f => simp [written, Reply.isAccepted]
  | ok response => cases h : response.isSuccess <;> simp [written, Reply.isAccepted, Response.checked, h]

theorem found_of_body {body : ByteArray} {c : Catalog} (h : Catalog.ofBytes? body = some c) :
    found (.ok ⟨200, body⟩) = c.ledger := by
  have hs : Response.isSuccess ⟨200, body⟩ = true := rfl
  simp only [found, Response.decode, Response.checked, hs, if_true, bind, Except.bind, h]

theorem found_eq_ok {reply : Reply} {st : StoredLedger} (h : found reply = .ok st) :
    ∃ response catalog, reply = .ok response ∧ response.isSuccess = true ∧
      Catalog.ofBytes? response.body = some catalog ∧ catalog.ledger = .ok st := by
  cases reply with
  | error f => cases h
  | ok response =>
    simp only [found, Response.decode, Response.checked, bind, Except.bind] at h
    cases hs : response.isSuccess with
    | false => simp [hs] at h
    | true =>
      cases hc : Catalog.ofBytes? response.body with
      | none => simp [hs, hc] at h
      | some catalog =>
        refine ⟨response, catalog, rfl, hs, hc, ?_⟩
        simpa [hs, hc] using h

theorem run_read (s : LedgerStore) :
    ExceptT.run s.read = .send s.readRequest fun reply => .done (found reply) := by
  simp only [read, catalog, Attempt.run_bind, Attempt.run_within, Attempt.run_post,
    Attempt.run_ofExcept, Exchange.send_bind, Exchange.done_bind, readRequest]
  apply Exchange.send_congr
  intro reply
  cases reply with
  | error f => rfl
  | ok response =>
    simp only [found]
    cases h : response.decode Catalog.ofBytes? with
    | error f => simp [h]
    | ok catalog => cases hc : catalog.ledger <;> simp [h, hc]

theorem run_write (s : LedgerStore) (l : Ledger) :
    ExceptT.run (s.write l) = .send (s.writeRequest l) fun reply => .done (written reply) := by
  simp only [write, Attempt.run_bind, Attempt.run_within, Attempt.run_post,
    Attempt.run_ofExcept, Exchange.send_bind, Exchange.done_bind, writeRequest]
  apply Exchange.send_congr
  intro reply
  cases reply with
  | error f => rfl
  | ok response =>
    simp only [written]
    cases h : response.checked <;> simp [h]

theorem run_checkRevision (s : LedgerStore) (expected : Revision) :
    ExceptT.run (s.checkRevision expected) = .send s.readRequest fun reply =>
      .done (match found reply with
        | .error e => .error e
        | .ok st => if st.revision = expected then .ok ()
          else .error (.concurrentModification expected st.revision)) := by
  simp only [checkRevision, Attempt.run_bind, run_read, Exchange.send_bind, Exchange.done_bind]
  apply Exchange.send_congr
  intro reply
  cases h : found reply with
  | error e => rfl
  | ok st => by_cases hr : st.revision = expected <;> simp [hr]

theorem run_writeChecked (s : LedgerStore) (l : Ledger) :
    ExceptT.run (s.writeChecked l) = .send s.readRequest fun reply =>
      match found reply with
      | .error e => .done (.error e)
      | .ok st =>
        if st.revision = l.revision then
          .send (s.writeRequest l.advance) fun reply =>
            .done ((written reply).map fun _ => l.advance)
        else .done (.error (.concurrentModification l.revision st.revision)) := by
  simp only [writeChecked, Attempt.run_bind, run_checkRevision, run_write, Exchange.send_bind,
    Exchange.done_bind, Attempt.run_pure]
  apply Exchange.send_congr
  intro reply
  cases h : found reply with
  | error e => rfl
  | ok st =>
    by_cases hr : st.revision = l.revision
    · simp only [hr, if_true]
      apply Exchange.send_congr
      intro reply
      cases hw : written reply <;> rfl
    · simp [hr]

end LedgerStore

namespace CatalogTracker

theorem ask_apply {α : Type} (f : LedgerStore → Attempt CatalogFault α) (t : CatalogTracker) :
    ask f t = ExceptT.run (f t.store) >>= fun r => .done (r.mapError .catalog, t) := by
  simp [ask]

theorem refresh_apply (t : CatalogTracker) :
    refresh t = .send t.store.readRequest fun reply =>
      .done (match LedgerStore.found reply with
        | .ok st => (.ok st.upgrade, { t with ledger := st.upgrade })
        | .error e => (.error (.catalog e), t)) := by
  simp only [refresh, Action.bind_apply, ask_apply, LedgerStore.run_read, Exchange.send_bind,
    Exchange.done_bind, keep]
  apply Exchange.send_congr
  intro reply
  cases h : LedgerStore.found reply <;> simp

theorem stage_apply (changes : List Change) (bulk : Bulk) (t : CatalogTracker) :
    stage changes bulk t = .send t.store.readRequest fun reply =>
      .done (match LedgerStore.found reply with
        | .error e => (.error (.catalog e), t)
        | .ok st =>
          if st.revision = t.ledger.revision then
            (.ok (bulk.append (LedgerStore.writeOperation (t.successor changes)) none),
              { t with pending := some (t.successor changes) })
          else (.error (.catalog (.concurrentModification t.ledger.revision st.revision)), t)) := by
  simp only [stage, Action.bind_apply, Action.get_apply, ask_apply, LedgerStore.run_checkRevision,
    Exchange.send_bind, Exchange.done_bind]
  apply Exchange.send_congr
  intro reply
  cases h : LedgerStore.found reply with
  | error e => simp
  | ok st => by_cases hr : st.revision = t.ledger.revision <;> simp [hr]

theorem ask_writeChecked_apply (l : Ledger) (t : CatalogTracker) :
    (ask (fun s => s.writeChecked l) >>= keep) t = .send t.store.readRequest fun reply =>
      match LedgerStore.found reply with
      | .error e => .done (.error (.catalog e), t)
      | .ok st =>
        if st.revision = l.revision then
          .send (t.store.writeRequest l.advance) fun reply =>
            .done (match LedgerStore.written reply with
              | .ok _ => (.ok (), { t with ledger := l.advance })
              | .error e => (.error (.catalog e), t))
        else .done (.error (.catalog (.concurrentModification l.revision st.revision)), t) := by
  simp only [Action.bind_apply, ask_apply, keep, LedgerStore.run_writeChecked, Exchange.send_bind]
  apply Exchange.send_congr
  intro reply
  cases LedgerStore.found reply with
  | error e => rfl
  | ok st =>
    by_cases hr : st.revision = l.revision
    · simp only [hr, if_true, Exchange.send_bind]
      apply Exchange.send_congr
      intro reply
      cases h : LedgerStore.written reply <;> simp [Except.map]
    · simp [hr]

theorem prepare_apply (t : CatalogTracker) :
    prepare t = .send t.store.readRequest fun reply =>
      match LedgerStore.found reply with
      | .error e => .done (.error (.catalog e), t)
      | .ok st =>
        if st.needsUpgrade then (ask (fun s => s.writeChecked st.upgrade) >>= keep) t
        else .done (.ok (), { t with ledger := st.upgrade }) := by
  simp only [prepare, Action.bind_apply, ask_apply, LedgerStore.run_read, Exchange.send_bind,
    Exchange.done_bind]
  apply Exchange.send_congr
  intro reply
  cases h : LedgerStore.found reply with
  | error e => rfl
  | ok st => cases hu : st.needsUpgrade <;> simp [hu, keep, ask_apply]

theorem getSetting_apply (name : String) (t : CatalogTracker) :
    getSetting name t = match Settings.defaultOf name with
      | .error e => .done (.error e, t)
      | .ok _ => .send t.store.readRequest fun reply =>
        .done (match LedgerStore.found reply with
          | .error e => (.error (.catalog e), t)
          | .ok st => (.ok st.upgrade.settings.migrationMode, { t with ledger := st.upgrade })) := by
  simp only [getSetting, Action.bind_apply, Action.ofExcept_apply, mapError_id, refresh_apply,
    Exchange.done_bind, Exchange.send_bind]
  cases hn : Settings.defaultOf name with
  | error e => rfl
  | ok default =>
    apply Exchange.send_congr
    intro reply
    cases h : LedgerStore.found reply <;> rfl

theorem updateSetting_apply (name value : String) (t : CatalogTracker) :
    updateSetting name value t = match Settings.defaultOf name with
      | .error e => .done (.error e, t)
      | .ok _ => .send t.store.readRequest fun reply =>
        match LedgerStore.found reply with
        | .error e => .done (.error (.catalog e), t)
        | .ok st => (ask (fun s => s.writeChecked { st.upgrade with settings := ⟨value⟩ }) >>= keep)
          { t with ledger := st.upgrade } := by
  simp only [updateSetting, Action.bind_apply, Action.ofExcept_apply, mapError_id, refresh_apply,
    Exchange.done_bind, Exchange.send_bind]
  cases hn : Settings.defaultOf name with
  | error e => rfl
  | ok default =>
    apply Exchange.send_congr
    intro reply
    cases h : LedgerStore.found reply <;> rfl

end CatalogTracker

end EngineMigrate
