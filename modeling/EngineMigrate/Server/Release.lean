import EngineMigrate.Text.Cut
import EngineMigrate.Text.Unsigned

/-!
Releases of the server as it reports them, their order, and what a release can do.  Releases from 2.0.0
on, pre-releases included, know data sources; so does a build whose release cannot be read.
-/
namespace EngineMigrate

/-- A release such as `v2.0.0-alpha.1`; `pre` is the tag after the dash. -/
structure Release where
  major : Nat
  minor : Nat
  patch : Nat
  pre : Option String
deriving DecidableEq, Repr

namespace Release

def numberLimit : Nat := Nat.pow 2 32

def ofTriple (t : Nat × Nat × Nat) : Release := ⟨t.1, t.2.1, t.2.2, none⟩

def triple (r : Release) : Nat × Nat × Nat := (r.major, r.minor, r.patch)

/-- The text before and after the first dash; a dash must have something behind it. -/
def splitTag (cs : List Char) : Option (List Char × Option (List Char)) :=
  match cs.dropWhile (· != '-') with
  | [] => some (cs, none)
  | _ :: [] => none
  | _ :: tag => some (cs.takeWhile (· != '-'), some tag)

/-- Reads `1.2.3`, `v1.2.3`, `v2.0.0-beta.1` or `v2.0.0+build`, blanks around it ignored. -/
def parse? (s : String) : Option Release := do
  let cs := (Text.trim s.toList).dropWhile (· == 'v')
  let (core, tag) ← splitTag (cs.takeWhile (· != '+'))
  match core.splitOn '.' with
  | [a, b, c] =>
    let major ← Text.unsigned? numberLimit a
    let minor ← Text.unsigned? numberLimit b
    let patch ← Text.unsigned? numberLimit c
    return ⟨major, minor, patch, tag.map String.ofList⟩
  | _ => none

def text (r : Release) : String :=
  let core := toString r.major ++ "." ++ toString r.minor ++ "." ++ toString r.patch
  match r.pre with
  | some tag => core ++ "-" ++ tag
  | none => core

def compareTriple (a b : Nat × Nat × Nat) : Ordering :=
  (compare a.1 b.1).then ((compare a.2.1 b.2.1).then (compare a.2.2 b.2.2))

/-- A pre-release stands before its release; two tags compare as texts. -/
def compareTag : Option String → Option String → Ordering
  | none, none => .eq
  | some _, none => .lt
  | none, some _ => .gt
  | some a, some b => compare a b

protected def compare (a b : Release) : Ordering :=
  (compareTriple a.triple b.triple).then (compareTag a.pre b.pre)

instance : Ord Release := ⟨Release.compare⟩

/-- Whether the three numbers are at least the given ones, whatever the tag. -/
def atLeast (r : Release) (t : Nat × Nat × Nat) : Bool := compareTriple r.triple t != .lt

/-- Ascending, equal releases in the order given. -/
def sort (rs : List Release) : List Release := rs.mergeSort fun a b => a.compare b != .gt

end Release

/-- Where a server can keep migration records. -/
inductive Capability where
  /-- In tables of its one database. -/
  | legacy
  /-- In the catalog, for any number of data sources. -/
  | datasources
deriving DecidableEq, Repr

namespace Capability

/-- The capability of a server that reports the given version text. -/
def ofVersion (version : String) : Capability :=
  match Release.parse? version with
  | some r => if r.atLeast (2, 0, 0) then .datasources else .legacy
  | none => .datasources

def hasDatasources : Capability → Bool
  | .legacy => false
  | .datasources => true

def name : Capability → String
  | .legacy => "legacy"
  | .datasources => "datasources"

/-- By name, in any case of its ASCII letters. -/
def parse? (s : String) : Option Capability :=
  let lower := String.ofList (s.toList.map Char.toLower)
  if lower = "legacy" then some .legacy
  else if lower = "datasources" then some .datasources
  else none

end Capability

end EngineMigrate
