import EngineMigrate.Proofs.LocalFailure

/-!
The sessions of one driver.  All that is alive of what the driver has given out is kept beside it, also what
a call opens for itself.  Main statement: at any moment one session at most is alive, and the lock is set
exactly while one is; a call that is refused for it sends no bulk and takes nothing from the session.
-/
namespace EngineMigrate

def Request.IsBulk (q : Request) : Prop :=
  ∃ v, q.body = some v ∧ v.get? "type" = some (.string "bulk")

namespace Driver

variable {d d' : Driver} {log : List Turn}

theorem not_isBulk_scanRequest (d : Driver) : ¬ d.scanRequest.IsBulk := by
  rintro ⟨v, hv, htype⟩
  obtain ⟨tracker, applied, locked, skip⟩ := d
  cases tracker with
  | tables t =>
    cases hv
    rw [Statement.get?_type] at htype
    simp at htype
  | catalog t =>
    cases hv
    rw [LedgerStore.get?_type_read] at htype
    simp at htype

/-- Committing the session sends what it holds: its operations in their order, each put down to its file,
and behind them what records its changes; all of it, unless it is broken off. -/
structure SendsHeld (d : Driver) (s : Session) : Prop where
  items : (d.commitBatches s).flatMap (fun b => b.bulk.items) =
    s.bulk.items ++ d.tracker.records s.changes
  nothing : s.isEmpty = true → ∀ log r, (unlock s d).Runs log r → log = [] ∧ r = (.ok (), d.release)
  requests : s.isEmpty = false → ∀ log r d', (unlock s d).Runs log (r, d') →
    ∃ sent, sent <+: d.commitBatches s ∧
      log.map Turn.request = d.checkRequests s ++ sent.map Batch.toRequest ∧
      (r = .ok () → sent = d.commitBatches s)

theorem sendsHeld (d : Driver) (s : Session) : d.SendsHeld s where
  items := d.items_commitBatches s
  nothing hs log r h := by
    rw [unlock_apply, commit_of_isEmpty hs] at h
    exact ⟨h.1, h.2.symm⟩
  requests hs _ _ _ h := requests_unlock hs h

/-! Only opening and giving up a session touch the lock. -/

theorem outcome_of_track {α : Type} {x : Tracker.Act α} {r : Except DriverFault α}
    (h : (track x d).Runs log (r, d')) :
    d'.locked = d.locked ∧ ∀ f, r = .error f → ∃ e, f = .tracking e := by
  rw [track, Action.focus_apply] at h
  obtain ⟨⟨outcome, t⟩, first, rest, rfl, -, -, hend⟩ := Exchange.runs_bind.1 h
  cases hend
  refine ⟨rfl, fun f hf => ?_⟩
  cases outcome with
  | error e =>
    cases hf
    exact ⟨e, rfl⟩
  | ok a => cases hf

theorem locked_of_scan {r : Except DriverFault Unit} (h : (scan d).Runs log (r, d')) :
    d'.locked = d.locked :=
  (runs_scan h).2.1

theorem locked_of_commit {s : Session} {r : Except DriverFault Unit}
    (h : (commit s d).Runs log (r, d')) : d'.locked = d.locked := by
  cases hs : s.isEmpty with
  | true =>
    rw [commit_of_isEmpty hs] at h
    cases h.2
    rfl
  | false =>
    rcases runs_commit hs h with ⟨e, -, -, rfl⟩ | ⟨look, sent, -, -, -, ⟨-, rfl⟩ | ⟨-, rfl⟩⟩
    all_goals rfl

theorem locked_of_attach {tracker : Tracker} {skip : Bool}
    (h : (ExceptT.run (attach tracker skip)).Runs log (.ok d)) : d.locked = false := by
  obtain ⟨⟨r, d'⟩, first, rest, rfl, hrun, -, hend⟩ := Exchange.runs_bind.1 h
  rw [Action.bind_apply] at hrun
  obtain ⟨⟨prepared, d₁⟩, look, more, rfl, hprepare, hscan⟩ := Exchange.runs_bind.1 hrun
  have hlocked : d₁.locked = false := (outcome_of_track hprepare).1
  cases prepared with
  | error e =>
    cases hscan.2
    cases hend
  | ok u =>
    have hkept := locked_of_scan hscan
    cases r with
    | error e => cases hend
    | ok u =>
      cases hend
      exact hkept.trans hlocked

theorem refused_of_record {c : Change} (h : (record c d).Runs log (.error .locked, d')) :
    d.locked = true ∧ log = [] ∧ d' = d := by
  rw [record_apply] at h
  split at h
  · rename_i hlocked
    obtain ⟨hlog, hend⟩ := h
    cases hend
    exact ⟨hlocked, hlog, rfl⟩
  · exact absurd trivial (ofServer_of_unlock h).not_isLocal

theorem refused_of_applyScanned {t : FileTree} {source : Source} {target : Target}
    {options : ApplyOptions} (h : (applyScanned t source target options d).Runs log (.error .locked, d')) :
    d.locked = true ∧ log = [] ∧ d' = d := by
  cases ends_applyScanned t source target options d with
  | unplanned hplan hend =>
    rw [hend] at h
    cases h.2
  | idle hplan hnone hend =>
    rw [hend] at h
    cases h.2
  | refused hplan hne hdry hlocked hend =>
    rw [hend] at h
    cases h.2
    exact ⟨hlocked, h.1, rfl⟩
  | unstaged hplan hne hdry hfree hstage hend =>
    rw [hend] at h
    cases h.2
    exact absurd rfl (Session.ofStaging_of_stagePlan hstage).ne_locked
  | committed hplan hne hdry hfree hstage hend =>
    rw [hend] at h
    obtain ⟨⟨outcome, d₁⟩, first, rest, rfl, hunlock, -, hr⟩ := Exchange.runs_bind.1 h
    cases outcome with
    | ok u => cases hr
    | error e =>
      cases hr
      exact absurd trivial (ofServer_of_unlock hunlock).not_isLocal

theorem refused_of_apply {t : FileTree} {source : Source} {target : Target} {options : ApplyOptions}
    (h : (apply t source target options d).Runs log (.error .locked, d')) :
    d.locked = true ∧ log.map Turn.request = [d.scanRequest] ∧ (scan d).Runs log (.ok (), d') := by
  rw [apply_eq, Action.bind_apply] at h
  obtain ⟨⟨outcome, d₁⟩, look, rest, rfl, hscan, hrest⟩ := Exchange.runs_bind.1 h
  obtain ⟨hrequest, hlocked, hserver⟩ := runs_scan hscan
  cases outcome with
  | error e =>
    cases hrest.2
    exact absurd trivial (hserver .locked rfl).not_isLocal
  | ok u =>
    obtain ⟨hset, rfl, rfl⟩ := refused_of_applyScanned hrest
    rw [List.append_nil]
    exact ⟨hlocked ▸ hset, hrequest, hscan⟩

end Driver

/-- A driver and those of its sessions that are alive, the latest first. -/
structure Holdings where
  driver : Driver
  alive : List Session
deriving DecidableEq

namespace Holdings

/-- What can happen to a driver and its sessions, one thing at a time. -/
inductive Move : Holdings → List Turn → Holdings → Prop where
  | lock {d d' : Driver} {s : Session} {alive : List Session}
    (h : (Driver.lock d).Runs [] (.ok s, d')) : Move ⟨d, alive⟩ [] ⟨d', s :: alive⟩
  /-- Whatever is done to what a session holds. -/
  | stage {d : Driver} {alive : List Session} (i : Nat) (s : Session) :
    Move ⟨d, alive⟩ [] ⟨d, alive.set i s⟩
  | commit {d d' : Driver} {s : Session} {alive : List Session} {log : List Turn}
    {r : Except DriverFault Unit} (hs : s ∈ alive) (h : (Driver.commit s d).Runs log (r, d')) :
    Move ⟨d, alive⟩ log ⟨d', alive⟩
  /-- The end of a session, whether it was committed or not. -/
  | drop {d : Driver} {alive : List Session} {i : Nat} (hi : i < alive.length) :
    Move ⟨d, alive⟩ [] ⟨d.release, alive.eraseIdx i⟩
  | scan {d d' : Driver} {alive : List Session} {log : List Turn} {r : Except DriverFault Unit}
    (h : (Driver.scan d).Runs log (r, d')) : Move ⟨d, alive⟩ log ⟨d', alive⟩
  | getSetting {d d' : Driver} {alive : List Session} {log : List Turn} {name : String}
    {r : Except DriverFault String} (h : (Driver.getSetting name d).Runs log (r, d')) :
    Move ⟨d, alive⟩ log ⟨d', alive⟩
  | updateSetting {d d' : Driver} {alive : List Session} {log : List Turn} {name value : String}
    {r : Except DriverFault Unit} (h : (Driver.updateSetting name value d).Runs log (r, d')) :
    Move ⟨d, alive⟩ log ⟨d', alive⟩

/-- One move after the other, with all that is sent on the way. -/
inductive Passes : Holdings → List Turn → Holdings → Prop where
  | refl (h : Holdings) : Passes h [] h
  | step {h h' h'' : Holdings} {log log' : List Turn} (m : Move h log h') (p : Passes h' log' h'') :
    Passes h (log ++ log') h''

theorem Move.passes {h h' : Holdings} {log : List Turn} (m : Move h log h') : h.Passes log h' := by
  have p := Passes.step m (.refl h')
  rwa [List.append_nil] at p

theorem Passes.trans {h h' h'' : Holdings} {log log' : List Turn} (p : h.Passes log h')
    (p' : h'.Passes log' h'') : h.Passes (log ++ log') h'' := by
  induction p with
  | refl h => exact p'
  | step m _ ih =>
    rw [List.append_assoc]
    exact .step m (ih p')

/-- As many sessions are alive as the lock is set: one or none. -/
def Counted (h : Holdings) : Prop := h.alive.length = h.driver.locked.toNat

theorem Move.counted {h h' : Holdings} {log : List Turn} (m : Move h log h') (hc : h.Counted) :
    h'.Counted := by
  have hkept : ∀ {d d' : Driver} {alive : List Session}, d'.locked = d.locked →
      Counted ⟨d, alive⟩ → Counted ⟨d', alive⟩ := by
    intro d d' alive hlocked hc
    exact hc.trans (congrArg Bool.toNat hlocked.symm)
  cases m with
  | lock h =>
    rw [Driver.lock_apply] at h
    split at h
    · cases h.2
    · rename_i hfree
      cases h.2
      simp_all [Counted]
  | stage i s => simpa [Counted] using hc
  | commit hs h => exact hkept (Driver.locked_of_commit h) hc
  | @drop d alive i hi =>
    have hone : alive.length = d.locked.toNat := hc
    have hle := d.locked.toNat_le
    have hlength := List.length_eraseIdx_of_lt hi
    show (alive.eraseIdx i).length = 0
    omega
  | scan h => exact hkept (Driver.locked_of_scan h) hc
  | getSetting h => exact hkept (Driver.outcome_of_track h).1 hc
  | updateSetting h => exact hkept (Driver.outcome_of_track h).1 hc

theorem Passes.counted {h h' : Holdings} {log : List Turn} (p : h.Passes log h') (hc : h.Counted) :
    h'.Counted := by
  induction p with
  | refl h => exact hc
  | step m _ ih => exact ih (m.counted hc)

theorem Counted.locked_iff {h : Holdings} (hc : h.Counted) : h.driver.locked = true ↔ h.alive ≠ [] := by
  rw [← List.length_pos_iff, hc]
  cases h.driver.locked <;> simp

theorem Counted.eq_singleton {h : Holdings} (hc : h.Counted) (hl : h.driver.locked = true) :
    ∃ s, h.alive = [s] := by
  rw [← List.length_eq_one_iff, hc, hl]
  rfl

/-- An action of the driver that leaves the sessions of its owner alone. -/
def drive {α : Type} (x : Driver.Act α) (h : Holdings) : Exchange (Except DriverFault Unit × Holdings) :=
  x h.driver >>= fun r => .done (r.1.map fun _ => (), ⟨r.2, h.alive⟩)

/-- Does something with what a session holds, if there is that session. -/
def stage (i : Nat) (f : Session → Except DriverFault Unit × Session) (h : Holdings) :
    Exchange (Except DriverFault Unit × Holdings) :=
  match h.alive[i]? with
  | some s => .done ((f s).1, ⟨h.driver, h.alive.set i (f s).2⟩)
  | none => .done (.ok (), h)

def lock (h : Holdings) : Exchange (Except DriverFault Unit × Holdings) :=
  Driver.lock h.driver >>= fun r => match r with
    | (.ok s, d) => .done (.ok (), ⟨d, s :: h.alive⟩)
    | (.error f, d) => .done (.error f, ⟨d, h.alive⟩)

def drop (i : Nat) (h : Holdings) : Exchange (Except DriverFault Unit × Holdings) :=
  if i < h.alive.length then .done (.ok (), ⟨h.driver.release, h.alive.eraseIdx i⟩)
  else .done (.ok (), h)

def unlock (i : Nat) (h : Holdings) : Exchange (Except DriverFault Unit × Holdings) :=
  match h.alive[i]? with
  | some s => Driver.unlock s h.driver >>= fun r => .done (r.1, ⟨r.2, h.alive.eraseIdx i⟩)
  | none => .done (.ok (), h)

end Holdings

/-- What can be asked of a driver and of its sessions, which go by their place. -/
inductive Demand where
  | lock
  | run (i : Nat) (content : String) (kind : Kind) (file : String)
  | change (i : Nat) (c : Change)
  | reset (i : Nat)
  | drop (i : Nat)
  | unlock (i : Nat)
  | record (c : Change)
  | apply (t : FileTree) (source : Source) (target : Target) (options : ApplyOptions)
  | scan
  | getSetting (name : String)
  | updateSetting (name value : String)

namespace Demand

def perform : Demand → Holdings → Exchange (Except DriverFault Unit × Holdings)
  | .lock => Holdings.lock
  | .run i content kind file => Holdings.stage i fun s => s.run content kind file
  | .change i c => Holdings.stage i fun s => (.ok (), s.change c)
  | .reset i => Holdings.stage i fun s => (.ok (), s.reset)
  | .drop i => Holdings.drop i
  | .unlock i => Holdings.unlock i
  | .record c => Holdings.drive (Driver.record c)
  | .apply t source target options => Holdings.drive (Driver.apply t source target options)
  | .scan => Holdings.drive Driver.scan
  | .getSetting name => Holdings.drive (Driver.getSetting name)
  | .updateSetting name value => Holdings.drive (Driver.updateSetting name value)

/-- The demands one after the other, whatever becomes of each. -/
def performAll : List Demand → Holdings → Exchange Holdings
  | [], h => .done h
  | c :: cs, h => c.perform h >>= fun r => performAll cs r.2

end Demand

namespace Holdings

variable {d d' : Driver} {alive : List Session} {log : List Turn}

theorem runs_drive {α : Type} {x : Driver.Act α} {h h' : Holdings} {r : Except DriverFault Unit}
    (hrun : (drive x h).Runs log (r, h')) :
    ∃ outcome, (x h.driver).Runs log (outcome, h'.driver) ∧ r = outcome.map (fun _ => ()) ∧
      h'.alive = h.alive := by
  obtain ⟨⟨outcome, d'⟩, first, rest, rfl, hx, rfl, hend⟩ := Exchange.runs_bind.1 hrun
  cases hend
  exact ⟨outcome, by rwa [List.append_nil], rfl, rfl⟩

theorem passes_lock (hfree : d.locked = false) :
    Passes ⟨d, alive⟩ [] ⟨{ d with locked := true },
      .start d.tracker.route d.skipConsistencyCheck :: alive⟩ := by
  refine (Move.lock ?_).passes
  rw [Driver.lock_apply]
  simp [hfree]

theorem passes_unlock {i : Nat} {s : Session} {r : Except DriverFault Unit} (hs : alive[i]? = some s)
    (h : (Driver.unlock s d).Runs log (r, d')) : Passes ⟨d, alive⟩ log ⟨d', alive.eraseIdx i⟩ := by
  obtain ⟨hi, -⟩ := List.getElem?_eq_some_iff.1 hs
  obtain ⟨d₁, hcommit, rfl⟩ := Driver.runs_unlock_iff.1 h
  have hpasses := Passes.step (.commit (List.mem_of_getElem? hs) hcommit) (Move.drop hi).passes
  rwa [List.append_nil] at hpasses

theorem passes_own {s : Session} {r : Except DriverFault Unit} (hfree : d.locked = false)
    (h : (Driver.unlock s { d with locked := true }).Runs log (r, d')) :
    Passes ⟨d, alive⟩ log ⟨d', alive⟩ :=
  (passes_lock hfree).trans (.step (.stage 0 s) (passes_unlock (i := 0) rfl h))

theorem passes_record {c : Change} {r : Except DriverFault Unit}
    (h : (Driver.record c d).Runs log (r, d')) : Passes ⟨d, alive⟩ log ⟨d', alive⟩ := by
  rw [Driver.record_apply] at h
  split at h
  · obtain ⟨rfl, hend⟩ := h
    cases hend
    exact .refl _
  · rename_i hlocked
    exact passes_own (by simpa using hlocked) h

theorem passes_applyScanned {t : FileTree} {source : Source} {target : Target} {options : ApplyOptions}
    {r : Except DriverFault ApplyResult}
    (h : (Driver.applyScanned t source target options d).Runs log (r, d')) :
    Passes ⟨d, alive⟩ log ⟨d', alive⟩ := by
  have hdone : ∀ {r'}, Driver.applyScanned t source target options d = .done (r', d) →
      log = [] ∧ d' = d := by
    intro r' hend
    rw [hend] at h
    obtain ⟨hlog, hend⟩ := h
    cases hend
    exact ⟨hlog, rfl⟩
  cases Driver.ends_applyScanned t source target options d with
  | unplanned hplan hend | idle hplan hnone hend | refused hplan hne hdry hlocked hend =>
    obtain ⟨rfl, rfl⟩ := hdone hend
    exact .refl _
  | unstaged hplan hne hdry hfree hstage hend =>
    -- the session is open while its files are read
    obtain ⟨rfl, rfl⟩ := hdone hend
    have hclosed : Driver.release { d' with locked := true } = d' := by
      obtain ⟨tracker, applied, locked, skip⟩ := d'
      obtain rfl : locked = false := hfree
      rfl
    have hopen : Passes ⟨d', alive⟩ [] ⟨{ d' with locked := true },
        .start d'.tracker.route d'.skipConsistencyCheck :: alive⟩ := passes_lock hfree
    have hdrop := hopen.trans (Move.drop (i := 0) (by simp)).passes
    rwa [hclosed] at hdrop
  | committed hplan hne hdry hfree hstage hend =>
    rw [hend] at h
    obtain ⟨⟨outcome, d₂⟩, first, last, rfl, hunlock, rfl, hr⟩ := Exchange.runs_bind.1 h
    cases hr
    rw [List.append_nil]
    exact passes_own hfree hunlock

theorem passes_apply {t : FileTree} {source : Source} {target : Target} {options : ApplyOptions}
    {r : Except DriverFault ApplyResult} (h : (Driver.apply t source target options d).Runs log (r, d')) :
    Passes ⟨d, alive⟩ log ⟨d', alive⟩ := by
  rw [Driver.apply_eq, Action.bind_apply] at h
  obtain ⟨⟨outcome, d₁⟩, look, rest, rfl, hscan, hrest⟩ := Exchange.runs_bind.1 h
  refine .step (.scan hscan) ?_
  cases outcome with
  | error e =>
    obtain ⟨rfl, hend⟩ := hrest
    cases hend
    exact .refl _
  | ok u => exact passes_applyScanned hrest

end Holdings

namespace Demand

open Holdings

variable {h h' : Holdings} {log : List Turn}

theorem passes_stage {i : Nat} {f : Session → Except DriverFault Unit × Session}
    {r : Except DriverFault Unit} (hrun : (Holdings.stage i f h).Runs log (r, h')) : h.Passes log h' := by
  unfold Holdings.stage at hrun
  split at hrun <;> obtain ⟨rfl, hend⟩ := hrun <;> cases hend
  · exact (Move.stage i _).passes
  · exact .refl _

/-- Whatever is demanded is made of moves. -/
theorem passes_perform {c : Demand} {r : Except DriverFault Unit}
    (hrun : (c.perform h).Runs log (r, h')) : h.Passes log h' := by
  obtain ⟨d, alive⟩ := h
  have hdrive : ∀ {α : Type} {x : Driver.Act α}, (∀ {outcome d'}, (x d).Runs log (outcome, d') →
      Passes ⟨d, alive⟩ log ⟨d', alive⟩) → (drive x ⟨d, alive⟩).Runs log (r, h') →
      Passes ⟨d, alive⟩ log h' := by
    intro α x hx hrun
    obtain ⟨outcome, hrun, -, halive⟩ := runs_drive hrun
    obtain ⟨d', alive'⟩ := h'
    obtain rfl : alive' = alive := halive
    exact hx hrun
  cases c with
  | lock =>
    simp only [perform, Holdings.lock, Driver.lock_apply, Exchange.done_bind] at hrun
    cases hlocked : d.locked with
    | true =>
      simp only [hlocked, if_true] at hrun
      obtain ⟨rfl, hend⟩ := hrun
      cases hend
      exact .refl _
    | false =>
      simp only [hlocked, Bool.false_eq_true, if_false] at hrun
      obtain ⟨rfl, hend⟩ := hrun
      cases hend
      exact passes_lock hlocked
  | run i content kind file => exact passes_stage hrun
  | change i c => exact passes_stage hrun
  | reset i => exact passes_stage hrun
  | drop i =>
    simp only [perform, Holdings.drop] at hrun
    split at hrun <;> obtain ⟨rfl, hend⟩ := hrun <;> cases hend
    · rename_i hi
      exact (Move.drop hi).passes
    · exact .refl _
  | unlock i =>
    simp only [perform, Holdings.unlock] at hrun
    split at hrun
    · rename_i s hs
      obtain ⟨⟨outcome, d'⟩, first, rest, rfl, hunlock, rfl, hend⟩ := Exchange.runs_bind.1 hrun
      cases hend
      rw [List.append_nil]
      exact passes_unlock hs hunlock
    · obtain ⟨rfl, hend⟩ := hrun
      cases hend
      exact .refl _
  | record c => exact hdrive passes_record hrun
  | apply t source target options => exact hdrive passes_apply hrun
  | scan => exact hdrive (fun h => (Move.scan h).passes) hrun
  | getSetting name => exact hdrive (fun h => (Move.getSetting h).passes) hrun
  | updateSetting name value => exact hdrive (fun h => (Move.updateSetting h).passes) hrun

theorem passes_performAll {cs : List Demand} (hrun : (performAll cs h).Runs log h') :
    h.Passes log h' := by
  induction cs generalizing h log with
  | nil =>
    obtain ⟨rfl, rfl⟩ := hrun
    exact .refl _
  | cons c cs ih =>
    obtain ⟨⟨r, h₁⟩, first, rest, rfl, hc, hrest⟩ := Exchange.runs_bind.1 hrun
    exact (passes_perform hc).trans (ih hrest)

/-- What is refused for a session that is open is refused at once or after a scan, and leaves all that is
alive as it is. -/
theorem refused_of_perform {c : Demand} (hrun : (c.perform h).Runs log (.error .locked, h')) :
    h.driver.locked = true ∧ h'.alive = h.alive ∧ ((log = [] ∧ h' = h) ∨
      (log.map Turn.request = [h.driver.scanRequest] ∧
        (Driver.scan h.driver).Runs log (.ok (), h'.driver))) := by
  have hstage : ∀ {i : Nat} {f : Session → Except DriverFault Unit × Session},
      (∀ s, (f s).1 ≠ .error .locked) → ¬ (Holdings.stage i f h).Runs log (.error .locked, h') := by
    intro i f hf hrun
    unfold Holdings.stage at hrun
    split at hrun
    · exact hf _ (congrArg Prod.fst hrun.2)
    · cases hrun.2
  have hdrive : ∀ {α : Type} {x : Driver.Act α}, (drive x h).Runs log (.error .locked, h') →
      (x h.driver).Runs log (.error .locked, h'.driver) ∧ h'.alive = h.alive := by
    intro α x hrun
    obtain ⟨outcome, hx, hr, halive⟩ := runs_drive hrun
    cases outcome with
    | ok a => cases hr
    | error e =>
      cases hr
      exact ⟨hx, halive⟩
  cases c with
  | lock =>
    simp only [perform, Holdings.lock, Driver.lock_apply, Exchange.done_bind] at hrun
    cases hlocked : h.driver.locked with
    | true =>
      simp only [hlocked, if_true] at hrun
      obtain ⟨hlog, hend⟩ := hrun
      cases hend
      exact ⟨rfl, rfl, .inl ⟨hlog, rfl⟩⟩
    | false =>
      simp only [hlocked, Bool.false_eq_true, if_false] at hrun
      cases hrun.2
  | run i content kind file =>
    refine absurd hrun (hstage fun s hs => ?_)
    unfold Session.run at hs
    split at hs <;> cases hs
  | change i c => exact absurd hrun (hstage nofun)
  | reset i => exact absurd hrun (hstage nofun)
  | drop i =>
    simp only [perform, Holdings.drop] at hrun
    split at hrun <;> cases hrun.2
  | unlock i =>
    simp only [perform, Holdings.unlock] at hrun
    split at hrun
    · obtain ⟨⟨outcome, d'⟩, first, rest, rfl, hunlock, -, hend⟩ := Exchange.runs_bind.1 hrun
      cases hend
      exact absurd trivial (Driver.ofServer_of_unlock hunlock).not_isLocal
    · cases hrun.2
  | record c =>
    obtain ⟨hrun, halive⟩ := hdrive hrun
    obtain ⟨hlocked, hlog, hd⟩ := Driver.refused_of_record hrun
    obtain ⟨d', alive'⟩ := h'
    cases hd
    cases halive
    exact ⟨hlocked, rfl, .inl ⟨hlog, rfl⟩⟩
  | apply t source target options =>
    obtain ⟨hrun, halive⟩ := hdrive hrun
    obtain ⟨hlocked, hlog, hscan⟩ := Driver.refused_of_apply hrun
    exact ⟨hlocked, halive, .inr ⟨hlog, hscan⟩⟩
  | scan => exact absurd trivial ((Driver.runs_scan (hdrive hrun).1).2.2 .locked rfl).not_isLocal
  | getSetting name =>
    obtain ⟨e, he⟩ := (Driver.outcome_of_track (hdrive hrun).1).2 .locked rfl
    cases he
  | updateSetting name value =>
    obtain ⟨e, he⟩ := (Driver.outcome_of_track (hdrive hrun).1).2 .locked rfl
    cases he

end Demand

namespace Driver

variable {d : Driver}

theorem lock_succeeds_iff : (∃ s d', (lock d).Runs [] (.ok s, d')) ↔ d.locked = false := by
  rw [lock_apply]
  cases hlocked : d.locked with
  | true =>
    simp only [if_true, Bool.true_eq_false, iff_false]
    rintro ⟨s, d', -, hend⟩
    cases hend
  | false => exact iff_of_true ⟨_, _, rfl, rfl⟩ rfl

/-- One session at a time.  All that is demanded of a driver is made of moves, in which at any moment one
session at most is alive, the lock is set exactly while one is, and another can be had exactly when none
is.  What is refused for it sends no bulk and leaves it with all that it holds, to be committed. -/
theorem one_session_alive {tracker : Tracker} {skip : Bool} {first : List Turn}
    (hd : (ExceptT.run (attach tracker skip)).Runs first (.ok d)) :
    (∀ cs log h, (Demand.performAll cs ⟨d, []⟩).Runs log h → Holdings.Passes ⟨d, []⟩ log h) ∧
    ∀ log h, Holdings.Passes ⟨d, []⟩ log h →
      h.alive.length ≤ 1 ∧ (h.driver.locked = true ↔ h.alive ≠ []) ∧
      ((∃ s d', (lock h.driver).Runs [] (.ok s, d')) ↔ h.alive = []) ∧
      ∀ c log' h', (Demand.perform c h).Runs log' (.error .locked, h') →
        (∃ s, h.alive = [s] ∧ h'.alive = [s] ∧ h'.driver.SendsHeld s) ∧
        (∀ turn ∈ log', ¬ turn.request.IsBulk) ∧
        ((log' = [] ∧ h' = h) ∨ (scan h.driver).Runs log' (.ok (), h'.driver)) := by
  have hstart : Holdings.Counted ⟨d, []⟩ := by simp [Holdings.Counted, locked_of_attach hd]
  refine ⟨fun cs log h => Demand.passes_performAll, fun log h hpasses => ?_⟩
  have hcounted := hpasses.counted hstart
  have hlocked := hcounted.locked_iff
  refine ⟨?_, hlocked, ?_, fun c log' h' hrun => ?_⟩
  · rw [hcounted]
    exact h.driver.locked.toNat_le
  · rw [lock_succeeds_iff, ← Bool.not_eq_true, hlocked, not_not]
  · obtain ⟨hset, halive, hsent⟩ := Demand.refused_of_perform hrun
    obtain ⟨s, hs⟩ := hcounted.eq_singleton hset
    refine ⟨⟨s, hs, halive.trans hs, sendsHeld _ s⟩, ?_, hsent.imp_right And.right⟩
    intro turn hturn
    rcases hsent with ⟨rfl, -⟩ | ⟨hrequest, -⟩
    · cases hturn
    · have hmem : turn.request ∈ log'.map Turn.request := List.mem_map_of_mem hturn
      rw [hrequest, List.mem_singleton] at hmem
      rw [hmem]
      exact h.driver.not_isBulk_scanRequest

/-- The session of that driver, with a version to record. -/
def heldSession : Session := (Session.start (.source "") false).change (.record 1 none)

/-- While the session is alive, another version cannot be recorded, and the session stays as it is. -/
theorem one_session_alive_onNoLedger :
    (Demand.performAll [.lock, .change 0 (.record 1 none)] ⟨onNoLedger, []⟩).Runs []
      ⟨{ onNoLedger with locked := true }, [heldSession]⟩ ∧
    ((Demand.record (.record 2 none)).perform ⟨{ onNoLedger with locked := true }, [heldSession]⟩).Runs []
      (.error .locked, ⟨{ onNoLedger with locked := true }, [heldSession]⟩) ∧
    SendsHeld { onNoLedger with locked := true } heldSession ∧
    ¬ ∃ s d', (lock { onNoLedger with locked := true }).Runs [] (.ok s, d') := by
  have hheld : (Demand.performAll [.lock, .change 0 (.record 1 none)] ⟨onNoLedger, []⟩).Runs []
      ⟨{ onNoLedger with locked := true }, [heldSession]⟩ := ⟨rfl, rfl⟩
  have hrefused : ((Demand.record (.record 2 none)).perform
      ⟨{ onNoLedger with locked := true }, [heldSession]⟩).Runs []
      (.error .locked, ⟨{ onNoLedger with locked := true }, [heldSession]⟩) := ⟨rfl, rfl⟩
  obtain ⟨hmoves, hmoments⟩ := one_session_alive runs_attach_onNoLedger
  obtain ⟨-, -, hlock, hrefusals⟩ := hmoments _ _ (hmoves _ _ _ hheld)
  obtain ⟨⟨s, hs, -, hsends⟩, -, -⟩ := hrefusals _ _ _ hrefused
  cases hs
  exact ⟨hheld, hrefused, hsends, fun h => by cases hlock.1 h⟩

end Driver

end EngineMigrate
