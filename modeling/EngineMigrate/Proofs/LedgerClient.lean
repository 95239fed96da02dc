import EngineMigrate.Proofs.Desk
import EngineMigrate.Proofs.HonestServer
import EngineMigrate.Proofs.LedgerUpdate

/-!
A client of the ledger among others.  What it has read and written is all that it knows; what it writes is
made from something that it knows, at the revision that its last look has found.  Main statement: a driver
with data sources keeps to this in every call, whatever the replies.
-/
namespace EngineMigrate

open Json (Value)

theorem CatalogTracker.successor_eq (t : CatalogTracker) (changes : List Change) :
    t.successor changes = (Update.changes changes).applyTo t.ledger := rfl

namespace Request

/-- The documents that the request puts in place of the stored ledger, in order. -/
def ledgerWrites (q : Request) : List Value :=
  match q.body with
  | none => []
  | some v => match bulkItems? v with
    | some items => items.filterMap cliWrite?
    | none => (cliWrite? v).toList

def isRead (q : Request) : Bool := q.body == some LedgerStore.readOperation.toJson

theorem body_of_isRead {q : Request} (h : q.isRead = true) :
    q.body = some LedgerStore.readOperation.toJson := by
  simpa [isRead] using h

end Request

@[simp] theorem LedgerStore.isRead_readRequest (store : LedgerStore) :
    store.readRequest.isRead = true := by
  simp [Request.isRead, readRequest]

namespace Server

variable (effect : Effect)

/-- The operation neither is a write of the ledger nor touches it in another way. -/
def Spares (o : Operation) : Prop :=
  cliWrite? o.toJson = none ∧ ∀ s s', Executes effect o.toJson s s' → s'.cliState = s.cliState

/-- The request writes this document, or none, and its execution leaves the ledger accordingly. -/
def Leaves (q : Request) (w : Option Value) : Prop :=
  q.ledgerWrites = w.toList ∧ ∀ v body s s', q.body = some v → Performs effect v body s s' →
    s'.cliState = w.or s.cliState

variable {effect}

theorem ledgerWrites_of_isRead {q : Request} (h : q.isRead = true) : q.ledgerWrites = [] := by
  have hbody := Request.body_of_isRead h
  have hbulk := bulkItems?_eq_none LedgerStore.get?_type_read (by decide)
  have hwrite := cliWrite?_eq_none LedgerStore.get?_type_read (by decide)
  simp [Request.ledgerWrites, hbody, hbulk, hwrite]

theorem leaves_of_body_eq_none {q : Request} (h : q.body = none) : Leaves effect q none := by
  refine ⟨by simp [Request.ledgerWrites, h], fun v body s s' hv => ?_⟩
  rw [h] at hv
  cases hv

theorem leaves_readRequest (store : LedgerStore) : Leaves effect store.readRequest none := by
  refine ⟨ledgerWrites_of_isRead store.isRead_readRequest, ?_⟩
  intro v body s s' hv h
  cases hv
  rw [(performs_read h).1, Option.none_or]

theorem leaves_writeRequest (store : LedgerStore) (l : Ledger) :
    Leaves effect (store.writeRequest l) (some l.toJson) := by
  have hbulk := bulkItems?_eq_none (LedgerStore.get?_type_write l) (by decide)
  have hwrite := cliWrite?_writeOperation l
  refine ⟨by simp [Request.ledgerWrites, LedgerStore.writeRequest, hbulk, hwrite], ?_⟩
  intro v body s s' hv h
  cases hv
  rw [(performs_write h).1, Option.some_or]

theorem ledgerWrites_toRequest (b : Batch) :
    b.toRequest.ledgerWrites = b.bulk.operations.filterMap fun o => cliWrite? o.toJson := by
  simp only [Request.ledgerWrites, Batch.toRequest, Batch.request, bulkItems?_request,
    List.filterMap_map]
  rfl

theorem leaves_of_spares {b : Batch} (h : ∀ o ∈ b.bulk.operations, Spares effect o) :
    Leaves effect b.toRequest none := by
  refine ⟨?_, ?_⟩
  · rw [ledgerWrites_toRequest, Option.toList_none, List.filterMap_eq_nil_iff]
    exact fun o ho => (h o ho).1
  · intro v body s s' hv hp
    cases hv
    rw [Option.none_or]
    exact (performs_batch hp).keeps fun o ho => (h o ho).2

/-- A batch that ends in a write of the ledger, and spares it up to there, leaves what it writes. -/
theorem leaves_of_write {b : Batch} {os : List Operation} {l : Ledger}
    (hb : b.bulk.operations = os ++ [LedgerStore.writeOperation l]) (h : ∀ o ∈ os, Spares effect o) :
    Leaves effect b.toRequest (some l.toJson) := by
  refine ⟨?_, ?_⟩
  · have hnil : os.filterMap (fun o => cliWrite? o.toJson) = [] :=
      List.filterMap_eq_nil_iff.2 fun o ho => (h o ho).1
    rw [ledgerWrites_toRequest, hb, List.filterMap_append, hnil]
    simp [cliWrite?_writeOperation]
  · intro v body s s' hv hp
    cases hv
    have hall := performs_batch hp
    rw [hb, List.map_append] at hall
    obtain ⟨mid, -, hwrite⟩ := executesAll_append hall
    obtain _ | ⟨hwrite, hrest⟩ := hwrite
    obtain _ | _ := hrest
    rw [(executes_write hwrite).1, Option.some_or]

end Server

/-- What a client knows of the ledger. -/
structure Knowledge where
  /-- What it has read and what it has written. -/
  seen : List StoredLedger
  /-- The revision that its last look has found, if it has not written since. -/
  looked : Option Revision

namespace Knowledge

def blank : Knowledge := ⟨[], none⟩

def found (know : Knowledge) : Except CatalogFault StoredLedger → Knowledge
  | .ok st => ⟨st :: know.seen, some st.revision⟩
  | .error _ => ⟨know.seen, none⟩

def tried (know : Knowledge) (ws : List Value) (accepted : Bool) : Knowledge :=
  if accepted then
    ⟨ws.filterMap (fun w => (StoredLedger.decode (some w)).toOption) ++ know.seen, none⟩
  else ⟨know.seen, none⟩

def after (know : Knowledge) (q : Request) (reply : Reply) : Knowledge :=
  if q.isRead then know.found (LedgerStore.found reply)
  else if q.ledgerWrites = [] then know
  else know.tried q.ledgerWrites reply.isAccepted

/-- All that is known can be written again as it is. -/
def Plain (know : Knowledge) : Prop := ∀ st ∈ know.seen, st.upgrade.Plain

/-- The update of a ledger may be written now: the ledger is known, and the last look has found its
revision. -/
structure Backs (know : Knowledge) (st : StoredLedger) (u : Update) : Prop where
  known : st ∈ know.seen
  looked : know.looked = some st.revision
  outdated : u = .upgrade → st.needsUpgrade = true

end Knowledge

/-- The reply is as a server with data sources gives it: it knows that it has them, and a ledger that it
shows can be written again. -/
structure Reply.Fair (q : Request) (reply : Reply) : Prop where
  plain : q.isRead = true → ∀ st, LedgerStore.found reply = .ok st → st.upgrade.Plain
  capable : q.body = none → ∀ response info, reply = .ok response →
    response.decode ServerInfo.ofBytes? = .ok info → info.capability = .datasources

/-- Watches a client that is to make an update, or none: a ledger that it writes must be one that it
may write now. -/
def Knowledge.watch (effect : Server.Effect) (update : Option Update) : Peer Knowledge where
  admits know q := Server.Leaves effect q none ∨ ∃ st u, update = some u ∧ know.Backs st u ∧
    Server.Leaves effect q (some (u.applyTo st.upgrade).toJson)
  answers know q reply know' := reply.Fair q ∧ know' = know.after q reply

namespace Knowledge

variable {effect : Server.Effect} {update : Option Update} {know : Knowledge}

theorem plain_blank : blank.Plain := fun _ h => absurd h List.not_mem_nil

theorem Plain.found (h : know.Plain) {r : Except CatalogFault StoredLedger}
    (hr : ∀ st, r = .ok st → st.upgrade.Plain) : (know.found r).Plain := by
  cases r with
  | error e => exact h
  | ok st =>
    intro st' hst
    rcases List.mem_cons.1 hst with rfl | hst
    · exact hr _ rfl
    · exact h st' hst

theorem after_of_isRead {q : Request} {reply : Reply} (h : q.isRead = true) :
    know.after q reply = know.found (LedgerStore.found reply) := by
  simp [after, h]

@[simp] theorem looked_tried (know : Knowledge) (ws : List Value) (accepted : Bool) :
    (know.tried ws accepted).looked = none := by
  cases accepted <;> rfl

theorem mem_seen_tried {ws : List Value} {accepted : Bool} {st : StoredLedger}
    (h : st ∈ (know.tried ws accepted).seen) :
    st ∈ know.seen ∨ ∃ w ∈ ws, StoredLedger.decode (some w) = .ok st := by
  cases accepted with
  | false => exact .inl h
  | true =>
    rcases List.mem_append.1 h with h | h
    · obtain ⟨w, hw, hst⟩ := List.mem_filterMap.1 h
      exact .inr ⟨w, hw, eq_ok_of_toOption hst⟩
    · exact .inl h

theorem after_of_leaves_none {q : Request} {reply : Reply} (hr : q.isRead = false)
    (hq : Server.Leaves effect q none) : know.after q reply = know := by
  simp [after, hr, hq.1]

theorem after_of_leaves_some {q : Request} {reply : Reply} {l : Ledger} (hr : q.isRead = false)
    (hl : l.Plain) (hq : Server.Leaves effect q (some l.toJson)) : know.after q reply =
      ⟨if reply.isAccepted then .current l :: know.seen else know.seen, none⟩ := by
  have hdecode := Ledger.decode_toJson hl
  cases hacc : reply.isAccepted <;> simp [after, hr, hq.1, tried, hacc, hdecode, Except.toOption]

theorem fair_of_not_isAccepted {q : Request} {reply : Reply} (h : reply.isAccepted = false) :
    reply.Fair q := by
  refine ⟨fun _ st hst => ?_, fun _ response info hr hinfo => ?_⟩
  · obtain ⟨response, -, rfl, hs, -⟩ := LedgerStore.found_eq_ok hst
    exact absurd (hs.symm.trans h) (by simp)
  · subst hr
    have hs : response.isSuccess = false := h
    simp [Response.decode, Response.checked, hs, bind, Except.bind] at hinfo

theorem after_of_not_isAccepted {q : Request} {reply : Reply} (h : reply.isAccepted = false) :
    (know.after q reply).seen = know.seen ∧
      ∀ r, (know.after q reply).looked = some r → know.looked = some r := by
  cases hread : q.isRead with
  | true =>
    rw [after_of_isRead hread]
    cases hfound : LedgerStore.found reply with
    | error e => exact ⟨rfl, fun r hr => by cases hr⟩
    | ok st =>
      obtain ⟨response, -, rfl, hs, -⟩ := LedgerStore.found_eq_ok hfound
      exact absurd (hs.symm.trans h) (by simp)
  | false =>
    by_cases hw : q.ledgerWrites = []
    · simp [after, hread, hw]
    · simp [after, hread, hw, tried, h]

theorem always_readRequest {α : Type} {post : α → Knowledge → Prop} {store : LedgerStore}
    {next : Reply → Exchange α} (h : know.Plain)
    (hnext : ∀ reply, (know.found (LedgerStore.found reply)).Plain →
      (next reply).Always (watch effect update) post (know.found (LedgerStore.found reply))) :
    (Exchange.send store.readRequest next).Always (watch effect update) post know := by
  refine ⟨.inl (Server.leaves_readRequest store), fun reply know' ha => ?_⟩
  obtain ⟨hfair, rfl⟩ := ha
  rw [after_of_isRead store.isRead_readRequest]
  exact hnext reply (h.found fun st => hfair.plain store.isRead_readRequest st)

theorem seen_of_leaves {q : Request} {reply : Reply} {know' : Knowledge} {st : StoredLedger} {u : Update}
    (h : know.Plain) (hst : st ∈ know.seen) (hr : q.isRead = false)
    (hq : Server.Leaves effect q (some (u.applyTo st.upgrade).toJson))
    (ha : (watch effect update).answers know q reply know') :
    know'.Plain ∧ know.seen ⊆ know'.seen ∧
      (reply.isAccepted = true → .current (u.applyTo st.upgrade) ∈ know'.seen) := by
  obtain ⟨-, rfl⟩ := ha
  have hl := Update.plain_applyTo (h st hst) u
  rw [after_of_leaves_some hr hl hq]
  cases hacc : reply.isAccepted with
  | true =>
    refine ⟨?_, fun st hst => List.mem_cons_of_mem _ hst, fun _ => List.mem_cons_self⟩
    intro st' hst'
    rcases List.mem_cons.1 hst' with rfl | hst'
    · exact hl
    · exact h st' hst'
  | false => exact ⟨h, fun st hst => hst, by simp⟩

end Knowledge

theorem LedgerStore.isRead_writeRequest (store : LedgerStore) (l : Ledger) :
    (store.writeRequest l).isRead = false := by
  refine beq_eq_false_iff_ne.2 fun h => ?_
  have htype := LedgerStore.get?_type_write l
  rw [Option.some.inj h, LedgerStore.get?_type_read] at htype
  exact absurd htype (by simp)

theorem Batch.isRead_toRequest (b : Batch) : b.toRequest.isRead = false := by
  refine beq_eq_false_iff_ne.2 fun h => ?_
  have htype := get?_type_bulk b.bulk b.source
  rw [← Batch.request, Option.some.inj h, LedgerStore.get?_type_read] at htype
  exact absurd htype (by simp)

/-- No commit is under way, and the kept ledger is one that is known. -/
structure CatalogTracker.Informed (t : CatalogTracker) (know : Knowledge) : Prop where
  idle : t.pending = none
  known : ∃ st ∈ know.seen, t.ledger = st.upgrade
  plain : know.Plain

namespace CatalogTracker

open Knowledge

variable {effect : Server.Effect} {update : Option Update} {know know' : Knowledge}
variable {t : CatalogTracker}

theorem Informed.mono (h : t.Informed know) (hp : know'.Plain) (hs : know.seen ⊆ know'.seen) :
    t.Informed know' := by
  obtain ⟨st, hst, hl⟩ := h.known
  exact ⟨h.idle, ⟨st, hs hst, hl⟩, hp⟩

theorem Informed.found (h : t.Informed know) {r : Except CatalogFault StoredLedger}
    (hp : (know.found r).Plain) : t.Informed (know.found r) := by
  refine h.mono hp ?_
  cases r with
  | ok st => exact List.subset_cons_self _ _
  | error e => exact List.Subset.refl _

theorem informed_of_found (hidle : t.pending = none) {st : StoredLedger}
    (hp : (know.found (.ok st)).Plain) :
    Informed { t with ledger := st.upgrade } (know.found (.ok st)) :=
  ⟨hidle, ⟨st, List.mem_cons_self, rfl⟩, hp⟩

/-- A checked write of an update keeps to what may be written, and keeps what it has written. -/
theorem always_writeChecked_watch {st : StoredLedger} {u : Update} {l : Ledger}
    (hl : l.advance = u.applyTo st.upgrade) (hst : st ∈ know.seen)
    (hu : u = .upgrade → st.needsUpgrade = true) (hidle : t.pending = none) (hp : know.Plain)
    {post : Except TrackingFault Unit × CatalogTracker → Knowledge → Prop}
    (hfail : ∀ e know', know'.Plain → know.seen ⊆ know'.seen → post (.error e, t) know')
    (hdone : ∀ t' know', t'.Informed know' → post (.ok (), t') know') :
    ((ask (fun s => s.writeChecked l) >>= keep) t).Always (watch effect (some u)) post know := by
  have hrevision : l.revision = st.revision := by
    have h := congrArg Ledger.revision hl
    rw [Update.revision_applyTo, StoredLedger.revision_upgrade] at h
    exact (BitVec.add_left_inj 1).1 h
  rw [ask_writeChecked_apply]
  refine always_readRequest hp fun reply hp' => ?_
  cases hfound : LedgerStore.found reply with
  | error e => exact hfail _ _ hp (List.Subset.refl _)
  | ok found =>
    rw [hfound] at hp'
    by_cases hr : found.revision = l.revision
    · simp only [hr, if_true, hl]
      have hb : (know.found (.ok found)).Backs st u :=
        ⟨List.mem_cons_of_mem _ hst, congrArg some (hr.trans hrevision), hu⟩
      have hq : Server.Leaves effect (t.store.writeRequest (u.applyTo st.upgrade)) _ :=
        Server.leaves_writeRequest t.store _
      refine ⟨.inr ⟨st, u, rfl, hb, hq⟩, fun reply know' ha => ?_⟩
      have hread := t.store.isRead_writeRequest (u.applyTo st.upgrade)
      obtain ⟨hp'', hs, hwritten⟩ := seen_of_leaves hp' hb.known hread hq ha
      dsimp only
      cases hw : LedgerStore.written reply with
      | error e => exact hfail _ _ hp'' (List.Subset.trans (List.subset_cons_self _ _) hs)
      | ok v =>
        have hacc := LedgerStore.written_eq_ok_iff.1 hw
        exact hdone _ _ ⟨hidle, ⟨_, hwritten hacc, rfl⟩, hp''⟩
    · simp only [hr, if_false]
      exact hfail _ _ hp' (List.subset_cons_self _ _)

theorem maintains_refresh_watch : Action.Maintains (watch effect update) Informed refresh := by
  intro t know h
  rw [refresh_apply]
  refine always_readRequest h.plain fun reply hp => ?_
  cases hfound : LedgerStore.found reply with
  | error e => exact h.found (hfound ▸ hp)
  | ok st => exact informed_of_found h.idle (hfound ▸ hp)

theorem maintains_getSetting_watch (name : String) :
    Action.Maintains (watch effect update) Informed (getSetting name) :=
  (Action.maintains_ofExcept _ _).bind fun _ =>
    maintains_refresh_watch.bind fun _ => Action.maintains_pure _

theorem maintains_updateSetting_watch (name value : String) :
    Action.Maintains (watch effect (some (.setting value))) Informed (updateSetting name value) := by
  intro t know h
  rw [updateSetting_apply]
  cases Settings.defaultOf name with
  | error e => exact h
  | ok default =>
    refine always_readRequest h.plain fun reply hp => ?_
    cases hfound : LedgerStore.found reply with
    | error e => exact h.found (hfound ▸ hp)
    | ok st =>
      have ht := informed_of_found h.idle (hfound ▸ hp)
      refine always_writeChecked_watch (u := .setting value) rfl List.mem_cons_self (by simp) ht.idle
        ht.plain ?_ ?_
      · exact fun e know' hp' hs => ht.mono hp' hs
      · exact fun t' know' ht' => ht'

theorem always_prepare_watch (hidle : t.pending = none) (hp : know.Plain) :
    (prepare t).Always (watch effect (some .upgrade))
      (fun r know' => r.1 = .ok () → r.2.Informed know') know := by
  rw [prepare_apply]
  refine always_readRequest hp fun reply hp' => ?_
  cases hfound : LedgerStore.found reply with
  | error e => simp
  | ok st =>
    rw [hfound] at hp'
    cases hu : st.needsUpgrade with
    | true =>
      simp only [hu, if_true]
      exact always_writeChecked_watch rfl List.mem_cons_self (fun _ => hu) hidle hp' (by simp)
        fun t' know' ht' _ => ht'
    | false =>
      simp only [hu, Bool.false_eq_true, if_false]
      exact fun _ => informed_of_found hidle hp'

end CatalogTracker

namespace Driver

open Knowledge

variable {effect : Server.Effect} {update : Option Update}

/-- The records are in the catalog, no commit is under way, and the kept ledger is one that is known. -/
def Informed (d : Driver) (know : Knowledge) : Prop :=
  ∃ t, d.tracker = .catalog t ∧ t.Informed know

theorem maintains_track_watch {α : Type} {onTables : Tables → Attempt TrackingFault α}
    {onCatalog : CatalogTracker.Act α}
    (h : Action.Maintains (watch effect update) CatalogTracker.Informed onCatalog) :
    Action.Maintains (watch effect update) Informed (track (Tracker.act onTables onCatalog)) := by
  intro d know hd
  obtain ⟨tracker, applied, locked, skip⟩ := d
  obtain ⟨t, rfl, ht⟩ := hd
  rw [track_catalog]
  apply (h t know ht).bind
  intro r know' hr
  exact ⟨r.2, rfl, hr⟩

theorem maintains_scan_watch : Action.Maintains (watch effect update) Informed scan := by
  have happlied : Action.Maintains (watch effect update) CatalogTracker.Informed
      CatalogTracker.applied :=
    CatalogTracker.maintains_refresh_watch.bind fun _ => Action.maintains_pure _
  exact (maintains_track_watch happlied).bind fun es d know hd => hd

theorem Informed.afterAbort {d : Driver} {know : Knowledge} (h : d.Informed know) :
    d.afterAbort.Informed know := by
  obtain ⟨t, ht, hidle, hknown, hplain⟩ := h
  exact ⟨t.aborted, by simp [Driver.afterAbort, ht, Tracker.aborted], rfl, hknown, hplain⟩

theorem Informed.succeeded_of_isEmpty {d : Driver} {know : Knowledge} (h : d.Informed know)
    {s : Session} (hc : s.changes.isEmpty = true) : (d.succeeded s).Informed know := by
  obtain ⟨t, ht, hidle, ⟨st, hst, hl⟩, hplain⟩ := h
  refine ⟨t.committed, by simp [succeeded, ht, Tracker.succeeded, hc], rfl, ⟨st, hst, ?_⟩, hplain⟩
  simp [CatalogTracker.committed, hidle, hl]

/-- Of the batches of a commit only the last may write the ledger, and what it writes is backed. -/
theorem always_sendBatches_watch {d : Driver} {t : CatalogTracker} {s : Session} {know : Knowledge}
    (hempty : s.isEmpty = false) (hs : s.Holds (Server.Spares effect)) (ht : d.tracker = .catalog t)
    (h : t.Informed know) (hback : s.changes.isEmpty = false → update = some (.changes s.changes) ∧
      ∃ st, know.Backs st (.changes s.changes) ∧ t.ledger = st.upgrade) :
    (ExceptT.run (sendBatches (d.commitBatches s))).Always (watch effect update) (fun r know' =>
      match r with
      | .ok () => (d.succeeded s).Informed know'
      | .error _ => d.afterAbort.Informed know') know := by
  have hd : d.Informed know := ⟨t, ht, h⟩
  have hspare : ∀ {items : List Staged}, items ⊆ s.bulk.items →
      ∀ o ∈ items.map Staged.operation, Server.Spares effect o := fun hsub o ho => by
    obtain ⟨x, hx, rfl⟩ := List.mem_map.1 ho
    exact hs x (hsub hx)
  -- Nothing is learnt from the batches before the last, so the last look still backs the write.
  refine always_sendBatches (I := fun sent rest know' => d.commitBatches s = sent ++ rest ∧
    (rest ≠ [] → know' = know) ∧ (rest = [] → (d.succeeded s).Informed know')) ?_ ?_
    ⟨rfl, fun _ => rfl, fun hnil => absurd hnil (commitBatches_ne_nil hempty)⟩
  · intro sent know' hinv
    exact hinv.2.2 rfl
  · intro sent b rest know' hinv
    obtain ⟨hsplit, hknow, -⟩ := hinv
    obtain rfl := hknow (by simp)
    have hread := b.isRead_toRequest
    have hsent : d.commitBatches s = (sent ++ [b]) ++ rest := by simp [hsplit]
    rcases commitBatches_cases ht hsplit with ⟨hsub, hlast⟩ | ⟨rfl, hc, items, hsub, hitems⟩
    · have hq := Server.leaves_of_spares (b := b) (hspare hsub)
      refine ⟨.inl hq, fun reply know' ha => ?_⟩
      obtain rfl := (after_of_leaves_none hread hq).symm.trans ha.2.symm
      constructor
      · intro hacc
        exact ⟨hsent, fun _ => rfl, fun hnil => hd.succeeded_of_isEmpty (hlast hnil)⟩
      · intro hrej e
        exact hd.afterAbort
    · obtain ⟨rfl, st, hb, hl⟩ := hback hc
      have hops : b.bulk.operations = items.map Staged.operation ++
          [LedgerStore.writeOperation ((Update.changes s.changes).applyTo st.upgrade)] := by
        simp [Bulk.operations, hitems, CatalogTracker.successor_eq, hl]
      have hq := Server.leaves_of_write hops (hspare hsub)
      refine ⟨.inr ⟨st, _, rfl, hb, hq⟩, fun reply know' ha => ?_⟩
      obtain ⟨hp, hseen, hwritten⟩ := seen_of_leaves h.plain hb.known hread hq ha
      constructor
      · intro hacc
        have hkept : t.successor s.changes =
            (StoredLedger.current ((Update.changes s.changes).applyTo st.upgrade)).upgrade := by
          rw [t.successor_eq, hl]
          rfl
        have hdone : (d.succeeded s).Informed know' := by
          refine ⟨{ t with ledger := t.successor s.changes, pending := none }, ?_, rfl, ?_, hp⟩
          · simp [succeeded, ht, Tracker.succeeded, hc]
          · exact ⟨_, hwritten hacc, hkept⟩
        exact ⟨hsent, by simp, fun _ => hdone⟩
      · intro hrej e
        exact Informed.afterAbort ⟨t, ht, h.mono hp hseen⟩

theorem maintains_commit_watch {s : Session} (hs : s.Holds (Server.Spares effect))
    (hu : s.changes.isEmpty = false → update = some (.changes s.changes)) :
    Action.Maintains (watch effect update) Informed (commit s) := by
  intro d know hd
  obtain ⟨t, ht, h⟩ := hd
  cases hempty : s.isEmpty with
  | true =>
    rw [commit_of_isEmpty hempty]
    exact ⟨t, ht, h⟩
  | false =>
    rw [commit_eq hempty]
    cases hc : s.changes.isEmpty with
    | true =>
      simp only [check, ht, hc, if_true, Exchange.done_bind, Exchange.always_bind]
      refine (always_sendBatches_watch hempty hs ht h (by simp [hc])).mono fun r know' hr => ?_
      cases r <;> exact hr
    | false =>
      simp only [check, ht, hc, Bool.false_eq_true, if_false, Exchange.send_bind, Exchange.done_bind]
      refine always_readRequest h.plain fun reply hp => ?_
      have hd : t.Informed (know.found (LedgerStore.found reply)) := h.found hp
      cases hfound : LedgerStore.found reply with
      | error e =>
        simp only [checked, hfound]
        exact Informed.afterAbort ⟨t, ht, hfound ▸ hd⟩
      | ok found =>
        rw [hfound] at hd
        by_cases hr : found.revision = t.ledger.revision
        · simp only [checked, hfound, hr, if_true, Exchange.always_bind]
          obtain ⟨st, hst, hl⟩ := h.known
          have hback : (know.found (.ok found)).Backs st (.changes s.changes) := by
            refine ⟨List.mem_cons_of_mem _ hst, congrArg some ?_, by simp⟩
            rw [hr, hl, StoredLedger.revision_upgrade]
          refine (always_sendBatches_watch hempty hs ht hd fun hc => ⟨hu hc, st, hback, hl⟩).mono
            fun r know' hr => ?_
          cases r <;> exact hr
        · simp only [checked, hfound, hr, if_false]
          exact Informed.afterAbort ⟨t, ht, hd⟩

theorem always_attach_watch (config : Config) (skip : Bool) {know : Knowledge} (hp : know.Plain) :
    (ExceptT.run (attach (.ofCapability config .datasources) skip)).Always
      (watch effect (some .upgrade)) (fun r know' => ∀ d, r = .ok d → d.Informed know') know := by
  refine always_attach ?_
  rw [start, Tracker.ofCapability, Tracker.prepare, Action.bind_apply, track_catalog]
  refine Exchange.always_bind.2 ?_
  apply (CatalogTracker.always_prepare_watch rfl hp).bind
  intro r know' hr
  obtain ⟨r, t⟩ := r
  cases r with
  | error e => simp
  | ok u => exact (maintains_scan_watch _ know' ⟨t, rfl, hr rfl⟩).mono fun r know'' hd _ => hd

/-- However a driver for a server with data sources is opened, it knows the ledger that it keeps. -/
theorem always_connect_watch (config : Config) {capability : Option Capability}
    (hc : capability ≠ some .legacy) {know : Knowledge} (hp : know.Plain) :
    (ExceptT.run (connect config capability)).Always (watch effect (some .upgrade))
      (fun r know' => ∀ d, r = .ok d → d.Informed know') know := by
  rw [connect, Attempt.run_bind, Attempt.run_within]
  cases capability with
  | some c =>
    cases c with
    | legacy => exact absurd rfl hc
    | datasources => exact always_attach_watch config config.skipConsistencyCheck hp
  | none =>
    simp only [Capability.run_detect, Exchange.send_bind, Exchange.done_bind]
    have hq : Server.Leaves effect ⟨.get, config.paths.version, none⟩ none :=
      Server.leaves_of_body_eq_none rfl
    refine ⟨.inl hq, fun reply know' ha => ?_⟩
    obtain rfl := (after_of_leaves_none rfl hq).symm.trans ha.2.symm
    dsimp only
    cases htold : Capability.told reply with
    | error f => simp
    | ok c =>
      obtain ⟨response, info, rfl, hinfo, rfl⟩ := Capability.told_eq_ok htold
      rw [ha.1.capable rfl response info rfl hinfo]
      exact always_attach_watch config config.skipConsistencyCheck hp

theorem informed_free (d : Driver) (b : Bool) (know : Knowledge) (h : d.Informed know) :
    Informed { d with locked := b } know := h

end Driver

end EngineMigrate
