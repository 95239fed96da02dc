import EngineMigrate.Proofs.LedgerClient

/-!
A client at work: it opens a driver or performs a call.  Main statements: it keeps to what may be written of
its update, and whatever it writes it first checks; a check that fails is the last that it sends.
-/
namespace EngineMigrate

/-- What a client is doing: it ends in a result and the driver and session that are there then. -/
abbrev Work := Exchange (Except DriverFault Unit × Option Desk)

namespace Work

def opening (config : Config) (capability : Option Capability) : Work := do
  let r ← ExceptT.run (Driver.connect config capability)
  return (r.map fun _ => (), r.toOption.map fun d => ⟨d, none⟩)

def calling (k : Desk) (c : Call) : Work := do
  let (r, k) ← c.perform k
  return (r, some k)

end Work

/-- The update of the ledger that a call is to make, if any. -/
def Call.update (k : Desk) : Call → Option Update
  | .updateSetting _ value => some (.setting value)
  | c => if (c.changes k).isEmpty then none else some (.changes (c.changes k))

theorem Call.update_of_changes {c : Call} {k : Desk} (h : (c.changes k).isEmpty = false) :
    c.update k = some (.changes (c.changes k)) := by
  cases c with
  | updateSetting name value => simp [changes] at h
  | _ => simp [update, h]

section

variable {effect : Server.Effect} {know : Knowledge}

open Knowledge

/-- Every call keeps to what may be written of its update, and leaves a driver that knows its ledger. -/
theorem Work.always_calling {c : Call} {k : Desk} (hc : c.Stages (Server.Spares effect))
    (h : k.Holds Driver.Informed (Server.Spares effect) know) :
    (calling k c).Always (watch effect (c.update k)) (fun r know' => ∀ k', r.2 = some k' →
      k'.Holds Driver.Informed (Server.Spares effect) know') know := by
  have hcall : (c.perform k).Always (watch effect (c.update k))
      (fun r know' => r.2.Holds Driver.Informed (Server.Spares effect) know') know := by
    refine Call.always_perform Driver.informed_free (fun _ => Driver.maintains_scan_watch) ?_ ?_ ?_ hc h
    · refine fun s hs hchanges => Driver.maintains_commit_watch hs fun hne => ?_
      rw [hchanges] at hne ⊢
      exact Call.update_of_changes hne
    · exact fun name _ => Driver.maintains_track_watch (CatalogTracker.maintains_getSetting_watch name)
    · intro name value hc
      subst hc
      exact Driver.maintains_track_watch (CatalogTracker.maintains_updateSetting_watch name value)
  apply hcall.bind
  intro r know' hr k' hk
  cases hk
  exact hr

theorem Work.always_opening (config : Config) {capability : Option Capability}
    (hc : capability ≠ some .legacy) (hp : know.Plain) :
    (opening config capability).Always (watch effect (some .upgrade)) (fun r know' => ∀ k', r.2 = some k' →
      k'.Holds Driver.Informed (Server.Spares effect) know') know := by
  apply (Driver.always_connect_watch config hc hp).bind
  intro r know' hr k' hk
  cases r with
  | error e => cases hk
  | ok d =>
    cases hk
    exact ⟨hr d rfl, by simp⟩

end

namespace Work

/-- If the work sends anything, that is a look at the ledger, and what it finds decides how it goes on. -/
def Looks (goesOn : StoredLedger → Work → Prop) : Work → Prop
  | .done _ => True
  | .send q next => q.isRead = true ∧
    ∀ reply st, LedgerStore.found reply = .ok st → goesOn st (next reply)

/-- If the work sends anything, that is a look at the ledger, and unless it finds the expected revision
the work ends with that, and nothing else is sent. -/
def Checks (expected : Revision) : Work → Prop :=
  Looks fun st w => st.revision ≠ expected →
    ∃ desk, w = .done (.error (.tracking (.catalog (.concurrentModification expected st.revision))), desk)

theorem checks_unlock {d : Driver} {t : CatalogTracker} {s : Session} (ht : d.tracker = .catalog t)
    (hc : s.changes.isEmpty = false) (f : Driver → Option Desk) :
    Checks t.ledger.revision (Driver.unlock s d >>= fun r => .done (r.1, f r.2)) := by
  have hempty : s.isEmpty = false := by simp [Session.isEmpty, hc]
  rw [Driver.unlock_apply, Driver.commit_eq hempty]
  simp only [Driver.check, ht, hc, Bool.false_eq_true, if_false, Exchange.send_bind,
    Exchange.done_bind]
  refine ⟨by simp, fun reply st hst hne => ?_⟩
  simp only [Driver.checked, hst, hne, if_false, Exchange.done_bind]
  exact ⟨_, rfl⟩

theorem checks_calling {k : Desk} {t : CatalogTracker} {c : Call} {cs : List Change}
    (ht : k.driver.tracker = .catalog t) (hu : c.update k = some (.changes cs)) :
    (calling k c).Checks t.ledger.revision := by
  cases c with
  | unlock =>
    cases hs : k.session with
    | none => simp [Call.update, Call.changes, hs] at hu
    | some s =>
      have hc : s.changes.isEmpty = false := by
        cases hc : s.changes.isEmpty <;> simp [Call.update, Call.changes, hs, hc] at hu ⊢
      have h := checks_unlock ht hc fun d => some ⟨d, none⟩
      simpa [calling, Call.perform, Desk.unlock, hs, Desk.drive] using h
  | record c =>
    cases hd : k.driver.locked with
    | true => simp [calling, Call.perform, Desk.drive, Driver.record_apply, hd, Checks, Looks]
    | false =>
      have h := checks_unlock (d := { k.driver with locked := true })
        (s := (Session.start k.driver.tracker.route k.driver.skipConsistencyCheck).change c) ht rfl
        fun d => some { k with driver := d }
      simpa [calling, Call.perform, Desk.drive, Driver.record_apply, hd] using h
  | _ => simp [Call.update, Call.changes] at hu

theorem checks_writeChecked {l : Ledger} {t : CatalogTracker} {expected : Revision}
    {f : Except TrackingFault Unit × CatalogTracker → Work} (hl : l.revision = expected)
    (hf : ∀ e t', ∃ desk, f (.error e, t') = .done (.error (.tracking e), desk)) :
    Checks expected
      ((CatalogTracker.ask (fun s => s.writeChecked l) >>= CatalogTracker.keep) t >>= f) := by
  subst hl
  rw [CatalogTracker.ask_writeChecked_apply]
  refine ⟨by simp, fun reply st hst hne => ?_⟩
  obtain ⟨desk, h⟩ := hf (.catalog (.concurrentModification l.revision st.revision)) t
  refine ⟨desk, ?_⟩
  simp only [hst, hne, if_false]
  exact h

theorem looks_updateSetting {k : Desk} {t : CatalogTracker} (ht : k.driver.tracker = .catalog t)
    (name value : String) :
    (calling k (.updateSetting name value)).Looks fun st w => w.Checks st.revision := by
  obtain ⟨⟨tracker, applied, locked, skip⟩, session⟩ := k
  obtain rfl := ht
  simp only [calling, Call.perform, Desk.drive, Action.focus_apply, Driver.updateSetting,
    Tracker.updateSetting, Driver.track_catalog, CatalogTracker.updateSetting_apply]
  cases Settings.defaultOf name with
  | error e => trivial
  | ok default =>
    simp only [Exchange.send_bind]
    refine ⟨by simp, fun reply st hst => ?_⟩
    simp only [hst, bind_assoc, Exchange.done_bind]
    exact checks_writeChecked st.revision_upgrade fun e t' => ⟨_, rfl⟩

theorem looks_opening (config : Config) :
    (opening config (some .datasources)).Looks
      fun st w => st.needsUpgrade = true → w.Checks st.revision := by
  simp only [opening, Driver.connect, Capability.detect, Attempt.run_bind, Attempt.run_within,
    Attempt.run_pure, Exchange.done_bind, mapError_ok, Driver.attach, ExceptT.run_mk]
  rw [Driver.start, Tracker.ofCapability, Tracker.prepare, Action.bind_apply, Driver.track_catalog,
    CatalogTracker.prepare_apply]
  simp only [Exchange.send_bind]
  refine ⟨by simp, fun reply st hst hu => ?_⟩
  simp only [hst, hu, if_true, bind_assoc, Exchange.done_bind]
  exact checks_writeChecked st.revision_upgrade fun e t' => ⟨_, rfl⟩

theorem opening_none (config : Config) : ∃ q next, q.body = none ∧ opening config none = .send q next ∧
    ∀ reply, (∃ r, next reply = .done r) ∨ ∃ c, next reply = opening config (some c) := by
  simp only [opening, Driver.connect, Attempt.run_bind, Attempt.run_within, Capability.run_detect,
    Exchange.send_bind, Exchange.done_bind]
  refine ⟨_, _, rfl, rfl, fun reply => ?_⟩
  cases Capability.told reply with
  | error f => exact .inl ⟨_, rfl⟩
  | ok c => exact .inr ⟨c, rfl⟩

end Work

end EngineMigrate
