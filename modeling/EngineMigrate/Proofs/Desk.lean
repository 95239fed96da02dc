import EngineMigrate.Driver.Apply
import EngineMigrate.Proofs.DriverTraffic

/-!
A driver in use.  Its owner calls it, and the session that it has given out, in any order, each call
whatever became of the one before.  Main statements: what every commit and every question to the server
maintains is maintained by every call, and between calls no commit is under way.
-/
namespace EngineMigrate

/-- A driver and the session that it has given out. -/
structure Desk where
  driver : Driver
  session : Option Session
deriving DecidableEq

/-- What the owner of a driver can do with it and with its session. -/
inductive Call where
  | scan
  | lock
  | run (content : String) (kind : Kind) (file : String)
  /-- Has a change recorded when the session is committed. -/
  | change (c : Change)
  | reset
  /-- Gives the session up. -/
  | drop
  | unlock
  /-- Records a change by a session of its own. -/
  | record (c : Change)
  | getSetting (name : String)
  | updateSetting (name value : String)

namespace Desk

abbrev Act (α : Type) := Action Desk DriverFault α

def drive {α : Type} (x : Driver.Act α) : Act α :=
  Action.focus Desk.driver (fun k d => { k with driver := d }) id x

def stage (f : Session → Except DriverFault Unit × Session) : Act Unit := fun k =>
  match k.session with
  | some s => return ((f s).1, { k with session := some (f s).2 })
  | none => return (.ok (), k)

def close (k : Desk) : Desk :=
  match k.session with
  | some _ => ⟨k.driver.release, none⟩
  | none => k

def unlock : Act Unit := fun k =>
  match k.session with
  | some s => drive (Driver.unlock s) ⟨k.driver, none⟩
  | none => return (.ok (), k)

end Desk

namespace Call

def perform : Call → Desk.Act Unit
  | .scan => Desk.drive Driver.scan
  | .lock => do
    let s ← Desk.drive Driver.lock
    modify fun k => { k with session := some s }
  | .run content kind file => Desk.stage fun s => s.run content kind file
  | .change c => Desk.stage fun s => (.ok (), s.change c)
  | .reset => Desk.stage fun s => (.ok (), s.reset)
  | .drop => modify Desk.close
  | .unlock => Desk.unlock
  | .record c => Desk.drive (Driver.record c)
  | .getSetting name => do let _ ← Desk.drive (Driver.getSetting name)
  | .updateSetting name value => Desk.drive (Driver.updateSetting name value)

/-- The calls one after the other, whatever becomes of each. -/
def performAll : List Call → Desk → Exchange Desk
  | [], k => .done k
  | c :: cs, k => do
    let (_, k) ← c.perform k
    performAll cs k

def changes (k : Desk) : Call → List Change
  | .unlock => (k.session.map Session.changes).getD []
  | .record c => [c]
  | _ => []

/-- Of the operations that the call stages, each is as `ok` says. -/
def Stages (ok : Operation → Prop) : Call → Prop
  | .run content kind _ => ∀ (s : Session) os, s.operations kind content = .ok os → ∀ o ∈ os, ok o
  | _ => True

end Call

def Session.Holds (ok : Operation → Prop) (s : Session) : Prop := ∀ x ∈ s.bulk.items, ok x.operation

namespace Session

variable {ok : Operation → Prop}

theorem holds_start (route : SqlRoute) (skip : Bool) : (start route skip).Holds ok := by
  simp [Holds, start, Bulk.empty]

theorem holds_reset (s : Session) : s.reset.Holds ok := by
  simp [Holds, reset, Bulk.empty]

theorem Holds.change {s : Session} (h : s.Holds ok) (c : Change) : (s.change c).Holds ok := h

theorem Holds.run {s : Session} (h : s.Holds ok) {content file : String} {kind : Kind}
    (hok : (Call.run content kind file).Stages ok) : (s.run content kind file).2.Holds ok := by
  unfold Session.run
  cases ho : s.operations kind content with
  | error f => exact holds_reset s
  | ok os =>
    intro x hx
    simp only [items_appendAll, List.mem_append, List.mem_map] at hx
    rcases hx with hx | ⟨o, ho', rfl⟩
    · exact h x hx
    · exact hok s os ho o ho'

end Session

namespace Driver

theorem lock_apply (d : Driver) :
    lock d = .done (if d.locked then (.error .locked, d)
      else (.ok (.start d.tracker.route d.skipConsistencyCheck), { d with locked := true })) := by
  simp only [lock, Action.bind_apply, Action.get_apply, Exchange.done_bind]
  cases d.locked <;> rfl

theorem unlock_apply (s : Session) (d : Driver) :
    unlock s d = commit s d >>= fun r => .done (r.1, r.2.release) := rfl

theorem record_apply (c : Change) (d : Driver) :
    record c d = if d.locked then .done (.error .locked, d)
      else unlock ((Session.start d.tracker.route d.skipConsistencyCheck).change c)
        { d with locked := true } := by
  cases h : d.locked <;> simp [record, lock_apply, h]

section

variable {κ : Type} {p : Peer κ} {I : Driver → κ → Prop}
variable (hfree : ∀ d b q, I d q → I { d with locked := b } q)
include hfree

theorem maintains_lock : Action.Maintains p I lock := by
  intro d q h
  rw [lock_apply]
  cases hd : d.locked with
  | true => exact h
  | false => exact hfree d true q h

theorem maintains_unlock {s : Session} (hs : Action.Maintains p I (commit s)) :
    Action.Maintains p I (unlock s) := by
  intro d q h
  rw [unlock_apply]
  apply (hs d q h).bind
  intro r q' hr
  exact hfree r.2 false q' hr

theorem maintains_record {c : Change}
    (hs : ∀ s : Session, s.bulk = .empty → s.changes = [c] → Action.Maintains p I (commit s)) :
    Action.Maintains p I (record c) := by
  intro d q h
  rw [record_apply]
  cases hd : d.locked with
  | true => exact h
  | false => exact maintains_unlock hfree (hs _ rfl rfl) _ q (hfree d true q h)

end

end Driver

namespace Desk

variable {κ : Type} {p : Peer κ} {I : Driver → κ → Prop} {ok : Operation → Prop}

/-- The driver and the peer are as `I` says, and the operations in the session as `ok` says. -/
def Holds (I : Driver → κ → Prop) (ok : Operation → Prop) (k : Desk) (q : κ) : Prop :=
  I k.driver q ∧ ∀ s, k.session = some s → s.Holds ok

theorem maintains_drive {α : Type} {x : Driver.Act α} (hx : Action.Maintains p I x) :
    Action.Maintains p (Holds I ok) (drive x) := by
  refine Action.Maintains.focus (J := fun k d q => I d q ∧ ∀ s, k.session = some s → s.Holds ok)
    (fun k q h => h) (fun k d q h => h) fun k d q h => ?_
  exact (hx d q h.1).mono fun r q' hr => ⟨hr, h.2⟩

theorem maintains_stage {f : Session → Except DriverFault Unit × Session}
    (hf : ∀ s : Session, s.Holds ok → (f s).2.Holds ok) :
    Action.Maintains p (Holds I ok) (stage f) := by
  intro k q h
  unfold stage
  cases hs : k.session with
  | none => exact h
  | some s => exact ⟨h.1, fun t ht => by cases ht; exact hf s (h.2 s hs)⟩

end Desk

namespace Call

variable {κ : Type} {p : Peer κ} {I : Driver → κ → Prop} {ok : Operation → Prop}

/-- The rule for calls: what a scan, a commit of the changes at hand and the settings maintain, a call
maintains. -/
theorem always_perform {c : Call} {k : Desk} {q : κ}
    (hfree : ∀ d b q, I d q → I { d with locked := b } q)
    (hscan : c = .scan → Action.Maintains p I Driver.scan)
    (hcommit : ∀ s : Session, s.Holds ok → s.changes = c.changes k →
      Action.Maintains p I (Driver.commit s))
    (hget : ∀ name, c = .getSetting name → Action.Maintains p I (Driver.getSetting name))
    (hupdate : ∀ name value, c = .updateSetting name value →
      Action.Maintains p I (Driver.updateSetting name value))
    (hok : c.Stages ok) (h : k.Holds I ok q) :
    (c.perform k).Always p (fun r q' => r.2.Holds I ok q') q := by
  cases c with
  | scan => exact Desk.maintains_drive (hscan rfl) k q h
  | lock =>
    simp only [perform, Action.bind_apply, Desk.drive, Action.focus_apply, Driver.lock_apply,
      Exchange.done_bind, mapError_id]
    cases hd : k.driver.locked with
    | true => exact h
    | false =>
      refine ⟨hfree k.driver true q h.1, fun s hs => ?_⟩
      cases hs
      exact Session.holds_start _ _
  | run content kind file => exact Desk.maintains_stage (fun s hs => hs.run hok) k q h
  | change c => exact Desk.maintains_stage (fun s hs => hs.change c) k q h
  | reset => exact Desk.maintains_stage (fun s _ => s.holds_reset) k q h
  | drop =>
    simp only [perform, Action.modify_apply, Exchange.always_done, Desk.close]
    cases hs : k.session with
    | none => exact h
    | some s => exact ⟨hfree k.driver false q h.1, by simp⟩
  | unlock =>
    simp only [perform, Desk.unlock]
    cases hs : k.session with
    | none => exact h
    | some s =>
      have hd := Driver.maintains_unlock hfree (hcommit s (h.2 s hs) (by simp [changes, hs]))
      exact Desk.maintains_drive hd ⟨k.driver, none⟩ q ⟨h.1, by simp⟩
  | record c =>
    refine Desk.maintains_drive (Driver.maintains_record hfree fun s hb hs => ?_) k q h
    refine hcommit s ?_ hs
    simp [Session.Holds, hb, Bulk.empty]
  | getSetting name =>
    exact (Desk.maintains_drive (hget name rfl)).bind (fun a => Action.maintains_pure _) k q h
  | updateSetting name value => exact Desk.maintains_drive (hupdate name value rfl) k q h

end Call

/-! Between calls no commit is under way. -/

namespace CatalogTracker

def Idle (t : CatalogTracker) (_ : List Turn) : Prop := t.pending = none

theorem maintains_ask {α : Type} (f : LedgerStore → Attempt CatalogFault α) :
    Action.Maintains .log Idle (ask f) := by
  intro t log h
  rw [ask_apply]
  apply (Exchange.always_true Peer.admits_log _ log).bind
  intro r log' _
  exact h

theorem maintains_keep (l : Ledger) : Action.Maintains .log Idle (keep l) := fun _ _ h => h

theorem maintains_refresh : Action.Maintains .log Idle refresh :=
  (maintains_ask _).bind fun _ => (maintains_keep _).bind fun _ => Action.maintains_pure _

theorem maintains_prepare : Action.Maintains .log Idle prepare := by
  refine (maintains_ask _).bind fun st => ?_
  cases st.needsUpgrade with
  | true => exact (maintains_ask _).bind fun l => maintains_keep l
  | false => exact maintains_keep _

theorem maintains_getSetting (name : String) : Action.Maintains .log Idle (getSetting name) :=
  (Action.maintains_ofExcept _ _).bind fun _ => maintains_refresh.bind fun _ => Action.maintains_pure _

theorem maintains_updateSetting (name value : String) :
    Action.Maintains .log Idle (updateSetting name value) :=
  (Action.maintains_ofExcept _ _).bind fun _ => maintains_refresh.bind fun _ =>
    (maintains_ask _).bind fun l => maintains_keep l

end CatalogTracker

namespace Driver

def Settled (d : Driver) (_ : List Turn) : Prop := d.tracker.Settled

theorem maintains_track {α : Type} {onTables : Tables → Attempt TrackingFault α}
    {onCatalog : CatalogTracker.Act α} (h : Action.Maintains .log CatalogTracker.Idle onCatalog) :
    Action.Maintains .log Settled (track (Tracker.act onTables onCatalog)) := by
  refine Action.Maintains.focus (J := fun _ t _ => t.Settled) (fun _ _ hd => hd) (fun _ _ _ ht => ht)
    fun d t log ht => ?_
  cases t with
  | tables t =>
    apply (Exchange.always_true Peer.admits_log _ log).bind
    intro r log' _
    rfl
  | catalog t =>
    apply (h t log (Tracker.settled_catalog_iff.1 ht)).bind
    intro r log' hr
    exact Tracker.settled_catalog_iff.2 hr

theorem maintains_scan : Action.Maintains .log Settled scan := by
  have happlied : Action.Maintains .log CatalogTracker.Idle CatalogTracker.applied :=
    CatalogTracker.maintains_refresh.bind fun _ => Action.maintains_pure _
  exact (maintains_track happlied).bind fun es d log hd => hd

theorem maintains_commit (s : Session) : Action.Maintains .log Settled (commit s) := by
  intro d log hd
  cases h : s.isEmpty with
  | true =>
    rw [commit_of_isEmpty h]
    exact hd
  | false =>
    rw [commit_eq h]
    apply (Exchange.always_true Peer.admits_log _ log).bind
    intro r log' _
    cases r with
    | error e => exact d.tracker.settled_aborted
    | ok u =>
      apply (Exchange.always_true Peer.admits_log _ log').bind
      intro r log'' _
      cases r with
      | error e => exact d.tracker.settled_aborted
      | ok u => exact d.tracker.settled_succeeded s.changes

theorem always_attach {κ : Type} {p : Peer κ} {I : Driver → κ → Prop} {tracker : Tracker} {skip : Bool}
    {q : κ} (h : ((do track Tracker.prepare; scan : Act Unit) (start tracker skip)).Always p
      (fun r q' => r.1 = .ok () → I r.2 q') q) :
    (ExceptT.run (attach tracker skip)).Always p (fun r q' => ∀ d, r = .ok d → I d q') q := by
  apply h.bind
  intro r q' hr d hd
  obtain ⟨r, d'⟩ := r
  cases r with
  | error e => cases hd
  | ok u =>
    cases hd
    exact hr rfl

theorem settled_free (d : Driver) (b : Bool) (log : List Turn) (h : d.Settled log) :
    Settled { d with locked := b } log := h

theorem maintains_apply (t : FileTree) (source : Source) (target : Target) (options : ApplyOptions) :
    Action.Maintains .log Settled (apply t source target options) := by
  refine maintains_scan.bind fun _ => Action.maintains_get.bind fun d =>
    (Action.maintains_ofExcept _ _).bind fun plan => ?_
  cases plan.isEmpty || options.dryRun with
  | true => exact Action.maintains_pure _
  | false =>
    refine (maintains_lock settled_free).bind fun session => ?_
    refine Action.Maintains.bind ?_ fun _ => Action.maintains_pure _
    unfold execute
    cases session.stagePlan t source options.skipExecution plan with
    | error f => exact fun d log hd => hd
    | ok s => exact maintains_unlock settled_free (maintains_commit s)

/-- A driver as its owner may come to have it: attached to a server and then used in any way, whatever
the server replied. -/
inductive Reachable : Driver → Prop where
  | attach {config : Config} {capability : Capability} {skip : Bool} {log : List Turn} {d : Driver}
    (h : (ExceptT.run (Driver.attach (.ofCapability config capability) skip)).Runs log (.ok d)) :
    Reachable d
  | call {d d' : Driver} {session session' : Option Session} {c : Call} {log : List Turn}
    {r : Except DriverFault Unit} (hd : Reachable d)
    (h : (c.perform ⟨d, session⟩).Runs log (r, ⟨d', session'⟩)) : Reachable d'
  | apply {d d' : Driver} {t : FileTree} {source : Source} {target : Target} {options : ApplyOptions}
    {log : List Turn} {r : Except DriverFault ApplyResult} (hd : Reachable d)
    (h : (Driver.apply t source target options d).Runs log (r, d')) : Reachable d'

theorem Reachable.settled {d : Driver} (h : d.Reachable) : d.tracker.Settled := by
  induction h with
  | @attach config capability skip log d h =>
    have hprepare : Action.Maintains .log Settled (do track Tracker.prepare; scan : Act Unit) :=
      (maintains_track CatalogTracker.maintains_prepare).bind fun _ => maintains_scan
    have hstart : (Driver.start (.ofCapability config capability) skip).Settled [] := by
      cases capability <;> rfl
    have hattach := always_attach ((hprepare _ [] hstart).mono fun r _ hr _ => hr)
    exact hattach.of_runs h d rfl
  | @call d d' session session' c log r hd h ih =>
    have hc : (c.perform ⟨d, session⟩).Always .log
        (fun r log => r.2.Holds Settled (fun _ => True) log) [] :=
      Call.always_perform settled_free (fun _ => maintains_scan) (fun s _ _ => maintains_commit s)
        (fun name _ => maintains_track (CatalogTracker.maintains_getSetting name))
        (fun name value _ => maintains_track (CatalogTracker.maintains_updateSetting name value))
        (by cases c <;> simp [Call.Stages]) ⟨ih, by simp [Session.Holds]⟩
    exact (hc.of_runs h).1
  | @apply d d' t source target options log r hd h ih =>
    exact (maintains_apply t source target options d [] ih).of_runs h

end Driver

end EngineMigrate
