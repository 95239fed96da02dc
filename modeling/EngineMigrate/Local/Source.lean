import EngineMigrate.Local.Migration
import EngineMigrate.Local.VersionSet

/-!
The migrations directory as scanned: its migration files in the order of the walk, and what follows
from them by version and direction.  Main statement: a version is known in a direction exactly if it
has a file there.
-/
namespace EngineMigrate

structure Source where
  root : String
  files : List MigrationFile
deriving DecidableEq, Repr

namespace Source

def unread (root : String) : Source := ⟨root, []⟩

/-- What a walk of the directory comes to: the files at one and two names below it, each directory in byte
order of its names. -/
def visits (d : Disk) (top : Location) : List (Except FileFault Location) :=
  d.below top fun name =>
    match d.tree.find? (top ++ [name]) with
    | some (.file _) => [.ok [name]]
    | some .directory => d.below (top ++ [name]) fun inner =>
      match d.tree.find? (top ++ [name, inner]) with
      | some (.file _) => [.ok [name, inner]]
      | _ => []
    | none => []

/-- The walk of the directory that a path leads to, if there is any. -/
def walkFrom (d : Disk) (root : String) : Except MigrationFault (List (Except FileFault Location)) :=
  match d.tree.locate root with
  | .error .absent => .error (.directoryNotFound root)
  | .error f => .error (.files f)
  | .ok top => if (d.tree.find? top).isSome then .ok (visits d top) else .error (.directoryNotFound root)

/-- A scan under way: the source that it is for, and what it has found so far. -/
structure Scan where
  source : Source
  found : List MigrationFile

/-- Takes in what the walk comes to, up to the first fault. -/
def gather : List (Except FileFault Location) → Scan → Except MigrationFault Unit × Scan
  | [], s => (.ok (), s)
  | .error f :: _, s => (.error (.files f), s)
  | .ok l :: walk, s =>
    gather walk { s with found := s.found ++ (MigrationFile.ofLocation? l).toList }

/-- Reads the directory anew.  What the source holds is replaced when the walk has come to its end. -/
def replace (d : Disk) (s : Scan) : Except MigrationFault Unit × Scan :=
  match walkFrom d s.source.root with
  | .error f => (.error f, s)
  | .ok walk => match gather walk s with
    | (.error f, s) => (.error f, s)
    | (.ok (), s) => (.ok (), { s with source.files := s.found })

/-- Scans again, whatever was known before. -/
def rescan (d : Disk) (s : Source) : Except MigrationFault Unit × Source :=
  let (r, scan) := replace d ⟨s, []⟩
  (r, scan.source)

def scan (d : Disk) (root : String) : Except MigrationFault Source :=
  match rescan d (unread root) with
  | (.ok (), s) => .ok s
  | (.error f, _) => .error f

def has (version : Nat) (direction : Direction) (f : MigrationFile) : Bool :=
  f.version == version && f.direction == direction

def versionsOf (s : Source) (direction : Direction) : VersionSet :=
  .ofList ((s.files.filter fun f => f.direction == direction).map MigrationFile.version)

def up (s : Source) : VersionSet := s.versionsOf .up

def down (s : Source) : VersionSet := s.versionsOf .down

def versions (s : Source) : VersionSet := .ofList (s.files.map MigrationFile.version)

def contains (s : Source) (version : Nat) : Bool := s.files.any fun f => f.version == version

def name? (s : Source) (version : Nat) : Option String :=
  (s.files.find? fun f => f.version == version).map MigrationFile.name

def ofKind (k : Kind) (fs : List MigrationFile) : List MigrationFile := fs.filter fun f => f.kind == k

/-- SQL goes before metadata on the way up and after it on the way down. -/
def executionOrder : Direction → List MigrationFile → List MigrationFile
  | .up, fs => ofKind .sql fs ++ ofKind .metadata fs
  | .down, fs => ofKind .metadata fs ++ ofKind .sql fs

/-- The files of a version and direction in execution order. -/
def filesOf (s : Source) (version : Nat) (direction : Direction) : List MigrationFile :=
  executionOrder direction (s.files.filter (has version direction))

def read (t : FileTree) (s : Source) (f : MigrationFile) : Except MigrationFault String :=
  (t.readText (f.path s.root)).mapError .files

theorem mem_executionOrder {d : Direction} {f : MigrationFile} {fs : List MigrationFile} :
    f ∈ executionOrder d fs ↔ f ∈ fs := by
  have hk : f.kind = .sql ∨ f.kind = .metadata := by cases f.kind <;> simp
  cases d <;> rcases hk with h | h <;> simp [executionOrder, ofKind, h]

theorem mem_filesOf {s : Source} {v : Nat} {d : Direction} {f : MigrationFile} :
    f ∈ s.filesOf v d ↔ f ∈ s.files ∧ f.version = v ∧ f.direction = d := by
  simp [filesOf, mem_executionOrder, has]

theorem mem_versionsOf {s : Source} {v : Nat} {d : Direction} :
    v ∈ s.versionsOf d ↔ s.filesOf v d ≠ [] := by
  rw [← List.isEmpty_eq_false_iff, List.isEmpty_eq_false_iff_exists_mem]
  simp only [versionsOf, VersionSet.mem_ofList, List.mem_map, List.mem_filter, mem_filesOf,
    beq_iff_eq]
  constructor
  · rintro ⟨f, ⟨hf, hd⟩, hv⟩
    exact ⟨f, hf, hv, hd⟩
  · rintro ⟨f, hf, hv, hd⟩
    exact ⟨f, ⟨hf, hd⟩, hv⟩

@[simp] theorem contains_iff {s : Source} {v : Nat} : s.contains v = true ↔ v ∈ s.versions := by
  simp [contains, versions]

end Source

end EngineMigrate
