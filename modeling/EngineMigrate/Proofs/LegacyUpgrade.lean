import EngineMigrate.Proofs.Agreement

/-!
Ledgers of the older layout, once they are upgraded and written.  Main statement: such a ledger reads back
as what was written exactly if the older document kept nothing under the names of the two fields that only
the current layout has.
-/
namespace EngineMigrate

open Json (Value Members)

/-- A ledger reads back as what was written exactly if its further members name no field. -/
theorem Ledger.decode_toJson_iff (l : Ledger) :
    StoredLedger.decode (some l.toJson) = .ok (.current l) ↔ l.Plain := by
  refine ⟨fun h => ?_, decode_toJson⟩
  rw [toJson_eq] at h
  rcases StoredLedger.decode_object h with ⟨m, hm, -⟩ | ⟨m, v, hm, hread, hversion, hv⟩
  · cases hm
  · cases hm
    exact plain_of_ofMembers? l.sorted_members hversion hv hread

namespace LegacyLedger

/-- Nothing is kept under a name that is a field of the current layout and no field of the older one. -/
def Apart (l : LegacyLedger) : Prop :=
  Members.get? "version" l.extra = none ∧ Members.get? "revision" l.extra = none

instance (l : LegacyLedger) : Decidable l.Apart := inferInstanceAs (Decidable (_ ∧ _))

theorem extra_of_ledger {s : Server} {l : LegacyLedger} (h : s.ledger = .ok (.legacy l)) :
    l.extra.Sorted ∧ Members.get? Ledger.entriesName l.extra = none ∧
      Members.get? Ledger.settingsName l.extra = none := by
  have hsorted := Server.sorted_extra h
  rw [StoredLedger.upgrade, l.upgrade_spec.2.1] at hsorted
  refine ⟨hsorted, ?_⟩
  unfold Server.ledger at h
  cases hs : s.cliState with
  | none =>
    rw [hs] at h
    cases h
    exact ⟨rfl, rfl⟩
  | some v =>
    rw [hs] at h
    cases v with
    | object ms =>
      rcases StoredLedger.decode_object h with ⟨m, hm, hl, -⟩ | ⟨m, v, hm, -⟩
      · cases hm
        rw [extra_of_ofMembers? hl, get?_extra, get?_extra]
        simp
      · cases hm
    | null =>
      cases h
      exact ⟨rfl, rfl⟩
    | _ => cases h

/-- The upgrade, at any revision, reads back as itself exactly if the older members stand apart. -/
theorem decode_upgrade_iff {s : Server} {l : LegacyLedger} (h : s.ledger = .ok (.legacy l)) (r : Revision) :
    StoredLedger.decode (some { l.upgrade with revision := r }.toJson) =
      .ok (.current { l.upgrade with revision := r }) ↔ l.Apart := by
  obtain ⟨hversion, hextra, -⟩ := l.upgrade_spec
  rw [Ledger.decode_toJson_iff]
  constructor
  · intro hplain
    have hnone : ∀ n ∈ Ledger.fieldNames, Members.get? n l.extra = none := hextra ▸ hplain.apart
    exact ⟨hnone "version" (by decide), hnone "revision" (by decide)⟩
  · rintro ⟨hv, hr⟩
    obtain ⟨hsorted, hentries, hsettings⟩ := extra_of_ledger h
    refine ⟨hversion, hextra ▸ hsorted, ?_⟩
    show ∀ n ∈ Ledger.fieldNames, Members.get? n l.upgrade.extra = none
    rw [hextra]
    simp only [Ledger.fieldNames, List.forall_mem_cons, List.not_mem_nil, false_implies, forall_const]
    exact ⟨hv, hr, hentries, hsettings, trivial⟩

end LegacyLedger

/-- The server as the other side of a conversation that only looks at the ledger. -/
def Server.reader (effect : Server.Effect) : Peer Server where
  admits _ q := q.body = some LedgerStore.readOperation.toJson
  answers := Handles effect

namespace CatalogTracker

variable {effect : Server.Effect} {s : Server}

theorem always_prepare_reader {l : Ledger} (h : s.ledger = .ok (.current l)) (t : CatalogTracker) :
    (prepare t).Always (Server.reader effect)
      (fun r s' => s' = s ∧ (r.1 = .ok () → r.2.ledger = l)) s := by
  rw [prepare_apply]
  refine ⟨rfl, fun reply s' hr => ?_⟩
  obtain ⟨rfl, hfound⟩ := Server.handles_read hr
  dsimp only
  cases hst : LedgerStore.found reply with
  | error e => exact ⟨rfl, fun hok => by cases hok⟩
  | ok st =>
    obtain rfl : StoredLedger.current l = st := by
      have hst := hfound st hst
      rw [h] at hst
      exact Except.ok.inj hst
    exact ⟨rfl, fun _ => rfl⟩

/-- What a tracker that has made ready keeps is what is stored, exactly if the members of an older ledger
stood apart; from then on making ready is a look. -/
theorem prepare_stores_iff (s : Server) :
    (∀ l, s.ledger = .ok (.legacy l) → ∀ r : Revision,
      (StoredLedger.decode (some { l.upgrade with revision := r }.toJson) =
        .ok (.current { l.upgrade with revision := r }) ↔ l.Apart)) ∧
    ∀ t : CatalogTracker, (prepare t).Always (Server.peer effect) (fun r s' => r.1 = .ok () →
      (s'.ledger = .ok (.current r.2.ledger) ↔ ∀ l, s.ledger = .ok (.legacy l) → l.Apart) ∧
      (s'.ledger = .ok (.current r.2.ledger) → ∀ u : CatalogTracker,
        (prepare u).Always (Server.reader effect)
          (fun r' s'' => s'' = s' ∧ (r'.1 = .ok () → r'.2.ledger = r.2.ledger)) s')) s := by
  refine ⟨fun l h r => LegacyLedger.decode_upgrade_iff h r, fun t => ?_⟩
  suffices hiff : (prepare t).Always (Server.peer effect) (fun r s' => r.1 = .ok () →
      (s'.ledger = .ok (.current r.2.ledger) ↔ ∀ l, s.ledger = .ok (.legacy l) → l.Apart)) s from
    hiff.mono fun r s' h hok => ⟨h hok, fun hs' u => always_prepare_reader hs' u⟩
  rw [prepare_apply]
  apply Server.always_readRequest
  intro reply hfound
  cases hst : LedgerStore.found reply with
  | error e =>
    intro hok
    cases hok
  | ok st =>
    have hs := hfound st hst
    cases st with
    | current l =>
      refine fun _ => iff_of_true hs fun l' hl' => ?_
      rw [hs] at hl'
      cases hl'
    | legacy l =>
      have hlegacy : (∀ l', s.ledger = .ok (.legacy l') → l'.Apart) ↔ l.Apart := by
        constructor
        · exact fun h => h l hs
        · intro h l' hl'
          rw [hs] at hl'
          cases hl'
          exact h
      simp only [StoredLedger.needsUpgrade, if_true]
      refine always_writeChecked (fun e hok => by cases hok) fun s' hw _ => ?_
      rw [hlegacy, ← LegacyLedger.decode_upgrade_iff hs l.upgrade.advance.revision, Server.ledger, hw]
      rfl

end CatalogTracker

/-- An older ledger that already has a null version and a revision of its own. -/
def LegacyLedger.overlapping : Value := .object [("revision", .integer 7), ("version", .null)]

/-- Its upgrade is written with both of them, and reads back as the older layout again. -/
theorem StoredLedger.decode_overlapping :
    ∃ l, decode (some LegacyLedger.overlapping) = .ok (.legacy l) ∧
      l.upgrade.revision = 0 ∧ Members.get? "revision" l.upgrade.members = some (.integer 7) ∧
      decode (some l.upgrade.toJson) ≠ .ok (.current l.upgrade) :=
  ⟨⟨[], none, [("revision", .integer 7), ("version", .null)]⟩, by decide +kernel⟩

end EngineMigrate
