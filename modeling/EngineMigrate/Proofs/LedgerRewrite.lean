import EngineMigrate.Proofs.LedgerLayout

/-!
Ledgers that are read, edited any number of times and written again.  Main statement: what was edited reads
back exactly, and the document keeps every member that belongs to another tool.
-/
namespace EngineMigrate

open Json (Value Members)

/-- One thing that the holder of a ledger does to it. -/
inductive Edit where
  | insert (e : Entry)
  | remove (version : Nat)
  | mode (value : String)
  | revision (number : Revision)
deriving DecidableEq, Repr

namespace Edit

def applyTo (l : Ledger) : Edit → Ledger
  | .insert e => l.insert e
  | .remove v => l.remove v
  | .mode value => { l with settings := ⟨value⟩ }
  | .revision r => { l with revision := r }

def applyAll (l : Ledger) (edits : List Edit) : Ledger := edits.foldl applyTo l

end Edit

namespace Ledger

theorem Plain.edit {l : Ledger} (h : l.Plain) (e : Edit) :
    (e.applyTo l).Plain ∧ (e.applyTo l).extra = l.extra := by
  cases e <;> exact ⟨h.congr rfl rfl, rfl⟩

theorem Plain.editAll {l : Ledger} (h : l.Plain) (edits : List Edit) :
    (Edit.applyAll l edits).Plain ∧ (Edit.applyAll l edits).extra = l.extra := by
  induction edits generalizing l with
  | nil => exact ⟨h, rfl⟩
  | cons e edits ih =>
    obtain ⟨hplain, hextra⟩ := h.edit e
    obtain ⟨hrest, hkept⟩ := ih hplain
    exact ⟨hrest, hkept.trans hextra⟩

/-- Outside of the fields a written ledger has its further members and no others. -/
theorem get?_toJson_other {l : Ledger} (h : l.extra.Sorted) {n : String} (hn : n ∉ fieldNames) :
    l.toJson.get? n = Members.get? n l.extra := by
  have hget := get?_members h n
  rwa [l.get?_fields_other hn, Option.or_none] at hget

theorem get?_extra_of_ofMembers? {ms : Members} {l : Ledger} (h : ofMembers? ms = some l) {n : String}
    (hn : n ∉ fieldNames) : Members.get? n l.extra = Members.get? n ms := by
  have hextra : l.extra = ms.filter fun m => !fieldNames.contains m.1 := by
    simp only [ofMembers?, Option.bind_eq_bind, Option.bind_eq_some_iff] at h
    obtain ⟨version, -, revision, -, entries, -, settings, -, h⟩ := h
    cases h
    rfl
  rw [hextra, Members.get?_filter (fun k => !fieldNames.contains k)]
  simp [hn]

/-- A ledger of the current layout survives being rewritten: after any edits it is read back as it was
written, and the document has the same members as before outside of the fields. -/
theorem decode_applyAll {v : Value} {l : Ledger} (hs : ∀ ms, v = .object ms → Members.Sorted ms)
    (h : StoredLedger.decode (some v) = .ok (.current l)) (edits : List Edit) :
    StoredLedger.decode (some (Edit.applyAll l edits).toJson) = .ok (.current (Edit.applyAll l edits)) ∧
    ∀ n, n ∉ fieldNames → (Edit.applyAll l edits).toJson.get? n = v.get? n := by
  cases v with
  | object ms =>
    rcases StoredLedger.decode_object h with ⟨m, hm, -⟩ | ⟨m, version, hm, hread, hversion, hv⟩
    · cases hm
    · cases hm
      have hplain : l.Plain := plain_of_ofMembers? (hs ms rfl) hversion hv hread
      obtain ⟨hedited, hextra⟩ := hplain.editAll edits
      refine ⟨decode_toJson hedited, fun n hn => ?_⟩
      rw [get?_toJson_other hedited.sorted hn, hextra]
      exact get?_extra_of_ofMembers? hread hn
  | _ => cases h

/-- A document with a truth value for a mode, an unnamed entry and a dirty one, and a member of another tool. -/
def shared : Value :=
  .object [("console", .array [.null, .string "kept"]),
    (settingsName, .object [("migration_mode", .bool false)]),
    (entriesName, .array [.object [("dirty", .bool true), ("name", .string "users"), ("version", .integer 3)],
      .object [("version", .integer 1)]]),
    ("version", .integer 2)]

def sharedLedger : Ledger :=
  ⟨2, 0, [⟨3, some "users", true⟩, ⟨1, none, false⟩], ⟨"false"⟩,
    [("console", .array [.null, .string "kept"])]⟩

def sharedEdits : List Edit := [.insert ⟨2, some "posts", false⟩, .mode "manual", .remove 1, .revision 5]

theorem sorted_shared (ms : Members) (h : shared = .object ms) : ms.Sorted := by
  cases h
  unfold Members.Sorted
  decide

theorem decode_shared : StoredLedger.decode (some shared) = .ok (.current sharedLedger) := by
  rfl

theorem applyAll_shared :
    Edit.applyAll sharedLedger sharedEdits =
      ⟨2, 5, [⟨2, some "posts", false⟩, ⟨3, some "users", true⟩], ⟨"manual"⟩, sharedLedger.extra⟩ := by
  simp [Edit.applyAll, Edit.applyTo, sharedEdits, sharedLedger, insert, remove, sorted, List.mergeSort]

theorem decode_applyAll_shared :
    StoredLedger.decode (some shared) = .ok (.current sharedLedger) ∧
    StoredLedger.decode (some (Edit.applyAll sharedLedger sharedEdits).toJson) = .ok (.current
      ⟨2, 5, [⟨2, some "posts", false⟩, ⟨3, some "users", true⟩], ⟨"manual"⟩, sharedLedger.extra⟩) ∧
    (Edit.applyAll sharedLedger sharedEdits).toJson.get? "console" =
      some (.array [.null, .string "kept"]) := by
  obtain ⟨hback, hkept⟩ := decode_applyAll sorted_shared decode_shared sharedEdits
  refine ⟨decode_shared, ?_, hkept "console" (by decide)⟩
  rw [hback, applyAll_shared]

end Ledger

end EngineMigrate
