import EngineMigrate.Server.Response
import EngineMigrate.Json.Printer

/-!
The ledger: the client's document in the server's catalog, with the applied migrations, the settings and
a revision that grows with each write.  An older layout without a version is upgraded when it is read.
Main statements: the versions on record after an insertion and after a removal.
-/
namespace EngineMigrate

open Json (Value Members)

/-- A migration recorded as applied. -/
structure Entry where
  version : Nat
  name : Option String
  dirty : Bool
deriving DecidableEq, Repr

namespace Entry

def fieldNames : List String := ["version", "name", "dirty"]

def ofFields? : Json.Fields → Option Entry
  | [version, name, dirty] => do
    let version ← version >>= Value.nat?
    let name ← Value.optional Value.string? name
    let dirty ← Value.orDefault false Value.bool? dirty
    return ⟨version, name, dirty⟩
  | _ => none

def ofJson? (v : Value) : Option Entry := v.fields? fieldNames >>= ofFields?

def toJson (e : Entry) : Value :=
  Value.ofMembers (("version", .nat e.version) :: ("dirty", .bool e.dirty) ::
    match e.name with
    | some n => [("name", .string n)]
    | none => [])

end Entry

structure Settings where
  migrationMode : String
deriving DecidableEq, Repr

namespace Settings

def defaultMode : String := "true"

def default : Settings := ⟨defaultMode⟩

def fieldNames : List String := ["migration_mode"]

/-- A mode; a truth value counts as its name. -/
def mode? : Value → Option String
  | .bool true => some "true"
  | .bool false => some "false"
  | .string s => some s
  | _ => none

def ofFields? : Json.Fields → Option Settings
  | [mode] => (Value.orDefault defaultMode mode? mode).map Settings.mk
  | _ => none

def ofJson? (v : Value) : Option Settings := v.fields? fieldNames >>= ofFields?

def toJson (s : Settings) : Value := Value.ofMembers [("migration_mode", .string s.migrationMode)]

end Settings

/-- Writes of the ledger are counted in words of 64 bits, so that the first revision comes again after the
last one. -/
abbrev Revision := BitVec 64

def Revision.ofJson? (v : Value) : Option Revision :=
  v.nat? >>= fun n => if n < Text.wordLimit then some (BitVec.ofNat 64 n) else none

@[simp] theorem Revision.ofJson?_toNat (r : Revision) : Revision.ofJson? (.nat r.toNat) = some r := by
  have hlt : r.toNat < Text.wordLimit := r.isLt
  simp [Revision.ofJson?, hlt]

theorem Revision.toNat_ofNat {n : Nat} (h : n < Text.wordLimit) : (BitVec.ofNat 64 n).toNat = n := by
  rw [BitVec.toNat_ofNat]
  exact Nat.mod_eq_of_lt h

/-- Everything that can go wrong with the catalog. -/
inductive CatalogFault where
  | send (fault : SendFault)
  | api (fault : ApiFault)
  /-- A ledger, or a part of one, that is not of the layout it claims. -/
  | layout
  | unsupportedVersion (version : Nat)
  | invalidState (reason : String)
  | concurrentModification (expected found : Revision)
deriving DecidableEq, Repr

def CatalogFault.message : CatalogFault → String
  | .send fault => "Transport error: " ++ fault.message
  | .api fault => "API error: " ++ fault.message
  | .layout => "JSON error: the state does not have the expected layout"
  | .unsupportedVersion version => "Unsupported cli state version " ++ toString version
  | .invalidState reason => "Invalid cli state: " ++ reason
  | .concurrentModification expected found =>
    "Catalog state was modified concurrently (expected revision " ++ toString expected.toNat ++
      ", found " ++ toString found.toNat ++ ")"

/-- The current layout. -/
structure Ledger where
  version : Nat
  revision : Revision
  entries : List Entry
  settings : Settings
  /-- Members that other tools keep here. -/
  extra : Members
deriving DecidableEq, Repr

namespace Ledger

def layoutVersion : Nat := 2

def entriesName : String := "schema_migrations"

def settingsName : String := "migration_settings"

def empty : Ledger := ⟨layoutVersion, 0, [], Settings.default, []⟩

def fieldNames : List String := ["version", "revision", entriesName, settingsName]

def versions (l : Ledger) : List Nat := l.entries.map Entry.version

def contains (l : Ledger) (version : Nat) : Bool := l.entries.any fun e => e.version == version

def remove (l : Ledger) (version : Nat) : Ledger :=
  { l with entries := l.entries.filter fun e => e.version != version }

/-- Removes the entries of a version and tells whether there was any. -/
def discard (l : Ledger) (version : Nat) : Bool × Ledger := (l.contains version, l.remove version)

/-- The entries by version, those of one version in the order they had. -/
def sorted (es : List Entry) : List Entry := es.mergeSort fun a b => a.version ≤ b.version

/-- With the entry, in place of the earlier ones of its version. -/
def insert (l : Ledger) (e : Entry) : Ledger :=
  { l with entries := sorted ((l.remove e.version).entries ++ [e]) }

/-- The same content at the next revision. -/
def advance (l : Ledger) : Ledger := { l with revision := l.revision + 1 }

@[simp] theorem entries_advance (l : Ledger) : l.advance.entries = l.entries := rfl

@[simp] theorem settings_advance (l : Ledger) : l.advance.settings = l.settings := rfl

@[simp] theorem revision_advance (l : Ledger) : l.advance.revision = l.revision + 1 := rfl

theorem revision_ne_advance (l : Ledger) : l.revision ≠ l.advance.revision := by
  simp

@[simp] theorem contains_iff (l : Ledger) (v : Nat) : l.contains v = true ↔ v ∈ l.versions := by
  simp [contains, versions]

theorem mem_versions_remove (l : Ledger) (v w : Nat) :
    w ∈ (l.remove v).versions ↔ w ∈ l.versions ∧ w ≠ v := by
  simp only [versions, remove, List.mem_map, List.mem_filter, bne_iff_ne, ne_eq]
  constructor
  · rintro ⟨e, ⟨he, hv⟩, rfl⟩
    exact ⟨⟨e, he, rfl⟩, hv⟩
  · rintro ⟨⟨e, he, rfl⟩, hv⟩
    exact ⟨e, ⟨he, hv⟩, rfl⟩

theorem mem_versions_insert (l : Ledger) (e : Entry) (w : Nat) :
    w ∈ (l.insert e).versions ↔ w = e.version ∨ w ∈ l.versions := by
  have h := mem_versions_remove l e.version w
  simp only [versions, List.mem_map] at h
  simp only [versions, insert, sorted, List.mem_map, List.mem_mergeSort, List.mem_append,
    List.mem_singleton]
  constructor
  · rintro ⟨x, hx | rfl, rfl⟩
    · exact .inr (h.1 ⟨x, hx, rfl⟩).1
    · exact .inl rfl
  · rintro (rfl | hw)
    · exact ⟨e, .inr rfl, rfl⟩
    · by_cases he : w = e.version
      · exact ⟨e, .inr rfl, he.symm⟩
      · obtain ⟨x, hx, hxw⟩ := h.2 ⟨hw, he⟩
        exact ⟨x, .inl hx, hxw⟩

/-- The written form; a further member overrides a field of its name. -/
def toJson (l : Ledger) : Value :=
  .object ((Members.ofList [("version", .nat l.version), ("revision", .nat l.revision.toNat),
    (entriesName, .array (l.entries.map Entry.toJson)),
    (settingsName, l.settings.toJson)]).insertAll l.extra)

def ofMembers? (ms : Members) : Option Ledger := do
  let version ← Members.get? "version" ms >>= Value.nat?
  let revision ← Value.orDefault 0 Revision.ofJson? (Members.get? "revision" ms)
  let entries ← Value.orDefault [] (fun v => v.array? >>= List.mapM Entry.ofJson?)
    (Members.get? entriesName ms)
  let settings ← Value.orDefault Settings.default Settings.ofJson? (Members.get? settingsName ms)
  return ⟨version, revision, entries, settings, ms.filter fun m => !fieldNames.contains m.1⟩

end Ledger

/-- The older layout, which has no version. -/
structure LegacyLedger where
  entries : List Entry
  settings : Option Settings
  extra : Members
deriving DecidableEq, Repr

namespace LegacyLedger

def empty : LegacyLedger := ⟨[], none, []⟩

/-- Entries that are no list are a placeholder for none; settings that are empty or no object are none. -/
def ofMembers? (ms : Members) : Option LegacyLedger := do
  let entries ← match Members.get? Ledger.entriesName ms with
    | some (.array items) => items.mapM Entry.ofJson?
    | _ => some []
  let settings ← match Members.get? Ledger.settingsName ms with
    | some (.object (m :: rest)) => (Settings.ofJson? (.object (m :: rest))).map some
    | _ => some none
  return ⟨entries, settings,
    Members.erase Ledger.settingsName (Members.erase Ledger.entriesName ms)⟩

/-- The current layout of the same content, at revision 0. -/
def upgrade (l : LegacyLedger) : Ledger :=
  l.entries.foldl Ledger.insert
    { Ledger.empty with settings := l.settings.getD Settings.default, extra := l.extra }

end LegacyLedger

/-- A ledger as found on the server. -/
inductive StoredLedger where
  | legacy (l : LegacyLedger)
  | current (l : Ledger)
deriving DecidableEq, Repr

namespace StoredLedger

def orLayout {α : Type} : Option α → Except CatalogFault α
  | some a => .ok a
  | none => .error .layout

/-- Reads a ledger by its version; no ledger at all is an empty one of the older layout. -/
def decode : Option Value → Except CatalogFault StoredLedger
  | none | some .null => .ok (.legacy LegacyLedger.empty)
  | some (.object ms) =>
    match Members.get? "version" ms with
    | none | some .null => return .legacy (← orLayout (LegacyLedger.ofMembers? ms))
    | some v => match v.nat? with
      | some n =>
        if n = Ledger.layoutVersion then return .current (← orLayout (Ledger.ofMembers? ms))
        else .error (.unsupportedVersion n)
      | none => .error (.invalidState ("version must be a number, found " ++ v.compact))
  | some v => .error (.invalidState ("expected an object, found " ++ v.compact))

def needsUpgrade : StoredLedger → Bool
  | .legacy _ => true
  | .current _ => false

def upgrade : StoredLedger → Ledger
  | .legacy l => l.upgrade
  | .current l => l

/-- The revision that a write has to be based on; the older layout counts as revision 0. -/
def revision : StoredLedger → Revision
  | .legacy _ => 0
  | .current l => l.revision

end StoredLedger

structure Catalog where
  id : String
  cliState : Option Value
  consoleState : Option Value
deriving DecidableEq, Repr

namespace Catalog

def fieldNames : List String := ["id", "cli_state", "console_state"]

def ofFields? : Json.Fields → Option Catalog
  | [id, cliState, consoleState] => do
    let id ← Value.orDefault "" Value.string? id
    let cliState ← Value.optional some cliState
    let consoleState ← Value.optional some consoleState
    return ⟨id, cliState, consoleState⟩
  | _ => none

def ofBytes? (body : ByteArray) : Option Catalog :=
  Json.fieldsOfBytes? fieldNames body >>= ofFields?

def ledger (c : Catalog) : Except CatalogFault StoredLedger := StoredLedger.decode c.cliState

end Catalog

end EngineMigrate
