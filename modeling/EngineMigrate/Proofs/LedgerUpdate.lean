import EngineMigrate.Proofs.LedgerEntries
import EngineMigrate.Proofs.LedgerLayout
import EngineMigrate.Proofs.LedgerTraffic

/-!
Updates of the ledger, and the marks that they are made of.  Main statements: an update enters its marks
one after the other and counts the revision up by one, and a mark holds until another one reverses it.
-/
namespace EngineMigrate

/-- What one write does to the ledger. -/
inductive Update where
  /-- Brings an older layout to the current one. -/
  | upgrade
  | changes (cs : List Change)
  | setting (value : String)
deriving DecidableEq, Repr

namespace Update

/-- The ledger that the update makes of another, at the next revision. -/
def applyTo (l : Ledger) : Update → Ledger
  | .upgrade => l.advance
  | .changes cs => (Change.enterAll l cs).advance
  | .setting value => Ledger.advance { l with settings := ⟨value⟩ }

theorem revision_applyTo (l : Ledger) (u : Update) : (u.applyTo l).revision = l.revision + 1 := by
  cases u with
  | upgrade => rfl
  | changes cs => exact congrArg (· + 1) (l.revision_enterAll cs)
  | setting value => rfl

theorem plain_applyTo {l : Ledger} (h : l.Plain) (u : Update) : (u.applyTo l).Plain := by
  cases u with
  | upgrade => exact h.congr rfl rfl
  | changes cs =>
    obtain ⟨hversion, hextra⟩ := l.enterAll_version_extra cs
    exact h.congr hversion hextra
  | setting value => exact h.congr rfl rfl

end Update

/-- The smallest part of an update: one change, or the setting. -/
inductive Mark where
  | change (c : Change)
  | setting (value : String)
deriving DecidableEq, Repr

namespace Mark

def enter (m : Mark) (l : Ledger) : Ledger :=
  match m with
  | .change c => c.enter l
  | .setting value => { l with settings := ⟨value⟩ }

/-- The ledger is as the mark has it: a recorded version has the one entry that was recorded. -/
def Holds (l : Ledger) : Mark → Prop
  | .change (.record v name) => l.entries.filter (·.version == v) = [⟨v, name, false⟩]
  | .change (.erase v) => l.entries.filter (·.version == v) = []
  | .setting value => l.settings = ⟨value⟩

def subject : Mark → Option Nat
  | .change c => some c.version
  | .setting _ => none

/-- Has something else in the place of a mark. -/
def Reverses (m' m : Mark) : Prop := m'.subject = m.subject ∧ m' ≠ m

end Mark

theorem Mark.holds_enter (m : Mark) (l : Ledger) : m.Holds (m.enter l) := by
  cases m with
  | setting value => rfl
  | change c =>
    cases c with
    | record v name =>
      have h := l.filter_insert ⟨v, name, false⟩ v
      rwa [if_pos rfl] at h
    | erase v =>
      have h := l.filter_remove v v
      rwa [if_pos rfl] at h

theorem Change.filter_enter {c : Change} {v : Nat} (h : v ≠ c.version) (l : Ledger) :
    (c.enter l).entries.filter (·.version == v) = l.entries.filter (·.version == v) := by
  cases c with
  | record w name =>
    have he := l.filter_insert ⟨w, name, false⟩ v
    rwa [if_neg (show v ≠ w from h)] at he
  | erase w =>
    have he := l.filter_remove w v
    rwa [if_neg (show v ≠ w from h)] at he

/-- A mark holds on until another one reverses it. -/
theorem Mark.Holds.enter {m m' : Mark} {l : Ledger} (h : m.Holds l) (hr : ¬ m'.Reverses m) :
    m.Holds (m'.enter l) := by
  by_cases he : m' = m
  · exact he ▸ m'.holds_enter l
  · have hs : m'.subject ≠ m.subject := fun hs => hr ⟨hs, he⟩
    cases m' with
    | setting value' =>
      cases m with
      | setting value => exact absurd rfl hs
      | change c => cases c <;> exact h
    | change c' =>
      cases m with
      | setting value => cases c' <;> exact h
      | change c =>
        have hv : c.version ≠ c'.version := fun hv => hs (congrArg some hv.symm)
        have hkept := Change.filter_enter hv l
        cases c with
        | record v name => exact hkept.trans h
        | erase v => exact hkept.trans h

namespace Update

def marks : Update → List Mark
  | .upgrade => []
  | .changes cs => (cs.map .change).reverse
  | .setting value => [.setting value]

theorem applyTo_eq (l : Ledger) (u : Update) :
    u.applyTo l = { u.marks.foldr Mark.enter l with revision := l.revision + 1 } := by
  cases u with
  | upgrade => rfl
  | changes cs =>
    have hr := l.revision_enterAll cs
    simp only [applyTo, Ledger.advance, hr, marks, List.foldr_reverse, List.foldl_map]
    rfl
  | setting value => rfl

end Update

namespace Mark

theorem foldr_enter_revision (ms : List Mark) (l : Ledger) (r : Revision) :
    ms.foldr enter { l with revision := r } = { ms.foldr enter l with revision := r } := by
  induction ms with
  | nil => rfl
  | cons m ms ih =>
    rw [List.foldr_cons, ih]
    cases m with
    | change c => cases c <;> rfl
    | setting value => rfl

/-- The last mark of its subject holds in the end. -/
theorem holds_foldr {later earlier : List Mark} {m : Mark} (h : ∀ m' ∈ later, ¬ m'.Reverses m)
    (l : Ledger) : m.Holds ((later ++ m :: earlier).foldr enter l) := by
  induction later with
  | nil => exact m.holds_enter _
  | cons m' later ih =>
    have hrest := ih fun m' hm => h m' (List.mem_cons_of_mem _ hm)
    exact hrest.enter (h m' List.mem_cons_self)

theorem Holds.of_revision {m : Mark} {l : Ledger} (h : m.Holds l) (r : Revision) :
    m.Holds { l with revision := r } := by
  cases m with
  | change c => cases c <;> exact h
  | setting value => exact h

end Mark

end EngineMigrate
