import EngineMigrate.Local.VersionSet
import EngineMigrate.Server.Bulk
import EngineMigrate.Text.Printable
import EngineMigrate.Tracking.Ledger

/-!
What trackers have in common: changes to the set of applied versions, the settings that exist, the
batches of a commit, and what can go wrong.
-/
namespace EngineMigrate

/-- A change of one version, to be recorded when what it stands for has been done. -/
inductive Change where
  | record (version : Nat) (name : Option String)
  | erase (version : Nat)
deriving DecidableEq, Repr

namespace Change

def version : Change → Nat
  | .record v _ => v
  | .erase v => v

def applyTo (applied : VersionSet) : Change → VersionSet
  | .record v _ => applied.insert v
  | .erase v => applied.erase v

def enter (l : Ledger) : Change → Ledger
  | .record v name => l.insert ⟨v, name, false⟩
  | .erase v => l.remove v

def applyAll (applied : VersionSet) (changes : List Change) : VersionSet :=
  changes.foldl applyTo applied

def enterAll (l : Ledger) (changes : List Change) : Ledger := changes.foldl enter l

theorem mem_versions_enter {l : Ledger} {applied : VersionSet}
    (h : ∀ v, v ∈ l.versions ↔ v ∈ applied) (c : Change) (v : Nat) :
    v ∈ (c.enter l).versions ↔ v ∈ c.applyTo applied := by
  cases c <;> simp [enter, applyTo, Ledger.mem_versions_insert, Ledger.mem_versions_remove, h]

theorem mem_versions_enterAll {l : Ledger} {applied : VersionSet}
    (h : ∀ v, v ∈ l.versions ↔ v ∈ applied) (cs : List Change) (v : Nat) :
    v ∈ (enterAll l cs).versions ↔ v ∈ applyAll applied cs := by
  induction cs generalizing l applied with
  | nil => exact h v
  | cons c cs ih => exact ih (mem_versions_enter h c)

end Change

/-- One request of a commit: a bulk for a single endpoint, scoped to a source where it has one. -/
structure Batch where
  path : String
  source : Option String
  bulk : Bulk
deriving DecidableEq, Repr

def Batch.request (b : Batch) : Json.Value := b.bulk.request b.source

inductive TrackingFault where
  | send (fault : SendFault)
  | api (fault : ApiFault)
  | catalog (fault : CatalogFault)
  | invalidSetting (name : String)
  | invalidRow (table : String) (row : List (Option String))
deriving DecidableEq, Repr

namespace TrackingFault

def cellText : Option String → String
  | some s => "Some(" ++ Text.quoted s ++ ")"
  | none => "None"

def rowText (row : List (Option String)) : String := "[" ++ ", ".intercalate (row.map cellText) ++ "]"

def message : TrackingFault → String
  | .send fault => "Transport error: " ++ fault.message
  | .api fault => "API error: " ++ fault.message
  | .catalog fault => "Catalog error: " ++ fault.message
  | .invalidSetting name => "Invalid setting: " ++ name
  | .invalidRow table row => "Invalid row in " ++ table ++ ": " ++ rowText row

end TrackingFault

namespace Settings

def known : List (String × String) := [("migration_mode", defaultMode)]

def defaultOf (name : String) : Except TrackingFault String :=
  match known.find? fun s => s.1 == name with
  | some s => .ok s.2
  | none => .error (.invalidSetting name)

end Settings

end EngineMigrate
