import EngineMigrate.Server.Release
import Mathlib.Order.Compare

/-!
The order of releases.  The three numbers decide, and among equal numbers the tag, a missing one standing
last.  Main statement: the order is total, only equal releases compare as equal, and what a server can do
grows with its release and does not depend on the tag.
-/
namespace EngineMigrate

open Std

namespace Release

/-- What orders the values of a function orders what it is applied to. -/
theorem transCmp_of_image {α β : Type} {cmp : β → β → Ordering} [TransCmp cmp] (f : α → β) :
    TransCmp fun a b => cmp (f a) (f b) where
  eq_swap := OrientedCmp.eq_swap
  isLE_trans := TransCmp.isLE_trans

instance : TransCmp compareTriple :=
  inferInstanceAs (TransCmp (compareLex (compareOn Prod.fst)
    (compareLex (compareOn fun t : ℕ × ℕ × ℕ => t.2.1) (compareOn fun t => t.2.2))))

instance : LawfulEqCmp compareTriple where
  eq_of_compare {a b} h := by
    simp only [compareTriple, Ordering.then_eq_eq, Nat.compare_eq_eq] at h
    exact Prod.ext h.1 (Prod.ext h.2.1 h.2.2)

instance : OrientedCmp compareTag where
  eq_swap {a b} := by
    cases a with
    | none => cases b <;> rfl
    | some a => cases b with
      | none => rfl
      | some b => exact OrientedOrd.eq_swap

-- A release without a tag is above all others of its numbers, so that only tags are left to compare.
instance : TransCmp compareTag where
  isLE_trans {a b c} hab hbc := by
    cases c with
    | none => cases a <;> rfl
    | some c => cases b with
      | none => cases hbc
      | some b => cases a with
        | none => cases hab
        | some a => exact TransOrd.isLE_trans hab hbc

instance : LawfulEqCmp compareTag where
  eq_of_compare {a b} h := by
    cases a with
    | none => cases b with
      | none => rfl
      | some b => cases h
    | some a => cases b with
      | none => cases h
      | some b => exact congrArg some (LawfulEqOrd.eq_of_compare h)

variable {a b c : Release} {t : ℕ × ℕ × ℕ}

-- The numbers first, then the tag.
instance : TransCmp Release.compare :=
  have : TransCmp fun a b : Release => compareTriple a.triple b.triple := transCmp_of_image triple
  have : TransCmp fun a b : Release => compareTag a.pre b.pre := transCmp_of_image pre
  inferInstanceAs (TransCmp (compareLex
    (fun a b : Release => compareTriple a.triple b.triple) fun a b => compareTag a.pre b.pre))

instance : LawfulEqCmp Release.compare where
  eq_of_compare {a b} h := by
    obtain ⟨hnumbers, htag⟩ := Ordering.then_eq_eq.1 h
    have htriple : a.triple = b.triple := LawfulEqCmp.eq_of_compare hnumbers
    have hpre : a.pre = b.pre := LawfulEqCmp.eq_of_compare htag
    cases a
    cases b
    simp_all [triple]

theorem isLE_compareTriple (h : (a.compare b).isLE) : (compareTriple a.triple b.triple).isLE :=
  Ordering.isLE_left_of_isLE_then h

theorem atLeast_iff : a.atLeast t = true ↔ (compareTriple t a.triple).isLE := by
  have hswap : compareTriple a.triple t = (compareTriple t a.triple).swap := OrientedCmp.eq_swap
  rw [atLeast, hswap]
  cases compareTriple t a.triple <;> decide

theorem atLeast_mono (hab : (a.compare b).isLE) (h : a.atLeast t = true) : b.atLeast t = true :=
  atLeast_iff.2 (TransCmp.isLE_trans (atLeast_iff.1 h) (isLE_compareTriple hab))

end Release

namespace Capability

variable {s : String} {r : Release}

/-- A server that reports a release knows data sources from 2.0.0 on, the tag not counted. -/
theorem ofVersion_eq_datasources_iff (h : Release.parse? s = some r) :
    ofVersion s = .datasources ↔ r.atLeast (2, 0, 0) = true := by
  simp only [ofVersion, h]
  cases r.atLeast (2, 0, 0) <;> simp

end Capability

namespace Release

/-- The order of releases is total, and only equal releases compare as equal.  Whoever has at least given
numbers is followed by such alone, so that a later release knows data sources if an earlier one does, and a
pre-release knows them exactly if the release of its numbers does. -/
theorem ordered_with_capability :
    (∀ a : Release, a.compare a = .eq) ∧
    (∀ a b : Release, a.compare b = .eq ↔
      a.major = b.major ∧ a.minor = b.minor ∧ a.patch = b.patch ∧ a.pre = b.pre) ∧
    (∀ a b : Release, (a.compare b).isLE → (b.compare a).isLE → a = b) ∧
    (∀ a b c : Release, (a.compare b).isLE → (b.compare c).isLE → (a.compare c).isLE) ∧
    (∀ a b : Release, b.compare a = (a.compare b).swap ∧ ((a.compare b).isLE ∨ (b.compare a).isLE)) ∧
    (∀ (a b : Release) (t : ℕ × ℕ × ℕ), (a.compare b).isLE → a.atLeast t = true → b.atLeast t = true) ∧
    ∀ (s t : String) (a b : Release), parse? s = some a → parse? t = some b →
      ((a.compare b).isLE → Capability.ofVersion s = .datasources →
        Capability.ofVersion t = .datasources) ∧
      (a.triple = b.triple → Capability.ofVersion s = Capability.ofVersion t) := by
  refine ⟨fun a => ReflCmp.compare_self, fun a b => ?_, fun a b hab hba => ?_,
    fun a b c => TransCmp.isLE_trans, fun a b => ⟨OrientedCmp.eq_swap, ?_⟩, fun a b t => atLeast_mono,
    fun s t a b hs ht => ⟨fun hab h => ?_, fun h => ?_⟩⟩
  · rw [LawfulEqCmp.compare_eq_iff_eq]
    cases a
    cases b
    simp
  · exact LawfulEqCmp.eq_of_compare (OrientedCmp.isLE_antisymm hab hba)
  · have hswap : b.compare a = (a.compare b).swap := OrientedCmp.eq_swap
    rw [hswap]
    cases a.compare b <;> decide
  · rw [Capability.ofVersion_eq_datasources_iff hs] at h
    rw [Capability.ofVersion_eq_datasources_iff ht]
    exact atLeast_mono hab h
  · have hsame : a.atLeast (2, 0, 0) = b.atLeast (2, 0, 0) := by rw [atLeast, atLeast, h]
    simp only [Capability.ofVersion, hs, ht, hsame]

/-- Two texts of one release, of which the first is a pre-release. -/
theorem ordered_with_capability_alpha :
    parse? "v2.0.0-alpha.1" = some ⟨2, 0, 0, some "alpha.1"⟩ ∧ parse? " 2.0.0+x" = some ⟨2, 0, 0, none⟩ ∧
    (Release.compare ⟨2, 0, 0, some "alpha.1"⟩ ⟨2, 0, 0, none⟩).isLE ∧
    Capability.ofVersion "v2.0.0-alpha.1" = .datasources ∧
    Capability.ofVersion " 2.0.0+x" = .datasources := by
  have halpha : parse? "v2.0.0-alpha.1" = some ⟨2, 0, 0, some "alpha.1"⟩ := by decide +kernel
  have hfinal : parse? " 2.0.0+x" = some ⟨2, 0, 0, none⟩ := by decide +kernel
  have hle : (Release.compare ⟨2, 0, 0, some "alpha.1"⟩ ⟨2, 0, 0, none⟩).isLE := by decide
  have hknows : Capability.ofVersion "v2.0.0-alpha.1" = .datasources := by decide +kernel
  obtain ⟨-, -, -, -, -, -, hcapability⟩ := ordered_with_capability
  exact ⟨halpha, hfinal, hle, hknows, (hcapability _ _ _ _ halpha hfinal).1 hle hknows⟩

end Release

end EngineMigrate
