import EngineMigrate.Proofs.LedgerEntries
import Mathlib.Data.List.Induction
import Mathlib.Order.Bounds.Defs

/-!
Walking through a set of versions.  Main statement: after any updates of a set, the neighbours of a version are
the nearest members on either side of it; from the first member on each member is visited once in ascending
order, and from the last one on in descending order; and an update says whether it changed the set.
-/
namespace EngineMigrate.VersionSet

variable {s : VersionSet} {v w : ℕ}

inductive Update where
  | add (v : ℕ)
  | discard (v : ℕ)

/-- What an update reports, and the set that it leads to. -/
def Update.apply (s : VersionSet) : Update → Bool × VersionSet
  | .add v => s.add v
  | .discard v => s.discard v

def updateAll (s : VersionSet) (us : List Update) : VersionSet := us.foldl (fun s u => (u.apply s).2) s

/-- A version is added by an update and not discarded by a later one. -/
def Added (v : ℕ) (us : List Update) : Prop :=
  ∃ before after, us = before ++ .add v :: after ∧ .discard v ∉ after

theorem added_cons {u : Update} {us : List Update} :
    Added v (u :: us) ↔ u = .add v ∧ .discard v ∉ us ∨ Added v us := by
  constructor
  · rintro ⟨before, after, hus, hafter⟩
    rcases List.cons_eq_append_iff.1 hus with ⟨-, hfirst⟩ | ⟨before, -, hlater⟩
    · obtain ⟨rfl, rfl⟩ := List.cons.inj hfirst
      exact .inl ⟨rfl, hafter⟩
    · exact .inr ⟨before, after, hlater, hafter⟩
  · rintro (⟨rfl, hus⟩ | ⟨before, after, rfl, hafter⟩)
    · exact ⟨[], us, rfl, hus⟩
    · exact ⟨u :: before, after, rfl, hafter⟩

theorem mem_updateAll {us : List Update} :
    v ∈ s.updateAll us ↔ Added v us ∨ v ∈ s ∧ .discard v ∉ us := by
  induction us generalizing s with
  | nil =>
    have hnone : ¬ Added v [] := by
      rintro ⟨before, after, hus, -⟩
      simp at hus
    simp [updateAll, hnone]
  | cons u us ih =>
    have hcons : s.updateAll (u :: us) = (u.apply s).2.updateAll us := rfl
    rw [hcons, ih, added_cons]
    cases u with
    | add w =>
      have hw : (Update.add w).apply s = (!s.contains w, s.insert w) := rfl
      simp only [hw, mem_insert, Update.add.injEq, List.mem_cons, reduceCtorEq, false_or, eq_comm (a := w)]
      tauto
    | discard w =>
      have hw : (Update.discard w).apply s = (s.contains w, s.erase w) := rfl
      simp only [hw, mem_erase, Update.discard.injEq, List.mem_cons, reduceCtorEq, false_and, false_or, not_or]
      tauto

/-- An update reports that it changed the set exactly if it did. -/
theorem Update.apply_changed_iff (u : Update) : (u.apply s).1 = true ↔ (u.apply s).2 ≠ s := by
  cases u with
  | add w =>
    have hw : (Update.add w).apply s = (!s.contains w, s.insert w) := rfl
    rw [hw, Bool.not_eq_true', ← Bool.not_eq_true, contains_iff, not_iff_not]
    constructor
    · intro hmem
      exact eq_of_mem_iff fun v => by simp +contextual [hmem]
    · intro heq
      rw [← heq]
      simp
  | discard w =>
    have hw : (Update.discard w).apply s = (s.contains w, s.erase w) := rfl
    rw [hw, contains_iff, ← not_iff_not, not_not]
    constructor
    · intro hmem
      refine eq_of_mem_iff fun v => ?_
      rw [mem_erase, and_iff_left_iff_imp]
      rintro hv rfl
      exact hmem hv
    · intro heq
      rw [← heq]
      simp

theorem next?_eq_some_iff_isLeast : s.next? v = some w ↔ IsLeast {u | u ∈ s ∧ v < u} w := by
  rw [next?_eq_some_iff]
  constructor
  · rintro ⟨hw, hlt, hmin⟩
    exact ⟨⟨hw, hlt⟩, fun u hu => hmin u hu.1 hu.2⟩
  · rintro ⟨⟨hw, hlt⟩, hmin⟩
    exact ⟨hw, hlt, fun u hu hvu => hmin ⟨hu, hvu⟩⟩

theorem prev?_eq_some_iff_isGreatest : s.prev? v = some w ↔ IsGreatest {u | u ∈ s ∧ u < v} w := by
  rw [prev?_eq_some_iff]
  constructor
  · rintro ⟨hw, hlt, hmax⟩
    exact ⟨⟨hw, hlt⟩, fun u hu => hmax u hu.1 hu.2⟩
  · rintro ⟨⟨hw, hlt⟩, hmax⟩
    exact ⟨hw, hlt, fun u hu huv => hmax ⟨hu, huv⟩⟩

theorem next?_eq_none_iff : s.next? v = none ↔ ∀ u ∈ s, u ≤ v := by
  simp [next?, List.find?_eq_none]

theorem prev?_eq_none_iff : s.prev? v = none ↔ ∀ u ∈ s, v ≤ u := by
  simp [prev?, List.find?_eq_none]

/-- The versions that are visited from a start by following `f`, until it leads no further. -/
inductive Visits (f : ℕ → Option ℕ) : Option ℕ → List ℕ → Prop where
  | done : Visits f none []
  | step {v : ℕ} {vs : List ℕ} (rest : Visits f (f v) vs) : Visits f (some v) (v :: vs)

theorem Visits.unique {f : ℕ → Option ℕ} {start : Option ℕ} {vs ws : List ℕ} (h : Visits f start vs)
    (h' : Visits f start ws) : vs = ws := by
  induction h generalizing ws with
  | done =>
    cases h'
    rfl
  | step rest ih =>
    cases h' with
    | step rest' => rw [ih rest']

section

variable {front back : List ℕ}

theorem next?_of_split (h : s.toList = front ++ v :: back) : s.next? v = back.head? := by
  have hascending := s.ascending
  rw [h, List.pairwise_append, List.pairwise_cons] at hascending
  obtain ⟨-, ⟨hback, -⟩, hfront⟩ := hascending
  have hnone : front.find? (v < ·) = none := by
    refine List.find?_eq_none.2 fun u hu => ?_
    have hlt := hfront u hu v List.mem_cons_self
    simpa using hlt.le
  rw [next?, h, List.find?_append, hnone, Option.none_or, List.find?_cons_of_neg (by simp)]
  cases back with
  | nil => rfl
  | cons w back => rw [List.find?_cons_of_pos (by simpa using hback w List.mem_cons_self), List.head?_cons]

theorem prev?_of_split (h : s.toList = front ++ v :: back) : s.prev? v = front.getLast? := by
  have hascending := s.ascending
  rw [h, List.pairwise_append, List.pairwise_cons] at hascending
  obtain ⟨-, ⟨hback, -⟩, hfront⟩ := hascending
  have hnone : back.reverse.find? (· < v) = none := by
    refine List.find?_eq_none.2 fun u hu => ?_
    have hlt := hback u (List.mem_reverse.1 hu)
    simpa using hlt.le
  rw [prev?, h, List.reverse_append, List.reverse_cons, List.append_assoc, List.singleton_append,
    List.find?_append, hnone, Option.none_or, List.find?_cons_of_neg (by simp), ← List.head?_reverse]
  cases hreverse : front.reverse with
  | nil => rfl
  | cons w rest =>
    have hw : w ∈ front := List.mem_reverse.1 (hreverse ▸ List.mem_cons_self)
    rw [List.find?_cons_of_pos (by simpa using hfront w hw v List.mem_cons_self), List.head?_cons]

/-- From any member on, `next?` visits that member and those behind it. -/
theorem visits_next? (h : s.toList = front ++ back) : Visits s.next? back.head? back := by
  induction back generalizing front with
  | nil => exact .done
  | cons v back ih =>
    have hsplit : s.toList = (front ++ [v]) ++ back := by rw [h, List.append_assoc, List.singleton_append]
    have hrest := ih hsplit
    rw [← next?_of_split h] at hrest
    exact .step hrest

theorem visits_prev? (h : s.toList = front ++ back) : Visits s.prev? front.getLast? front.reverse := by
  induction front using List.reverseRecOn generalizing back with
  | nil => exact .done
  | append_singleton front v ih =>
    rw [List.append_assoc, List.singleton_append] at h
    have hrest := ih h
    rw [← prev?_of_split h] at hrest
    rw [List.getLast?_concat, List.reverse_concat]
    exact .step hrest

end

theorem visits_forth (s : VersionSet) : Visits s.next? s.first? s.toList :=
  visits_next? (List.nil_append s.toList).symm

theorem visits_back (s : VersionSet) : Visits s.prev? s.last? s.toList.reverse :=
  visits_prev? (List.append_nil s.toList).symm

theorem prev?_next? (hv : v ∈ s) (h : s.next? v = some w) : s.prev? w = some v := by
  obtain ⟨front, back, hsplit⟩ := List.append_of_mem hv
  rw [next?_of_split hsplit] at h
  obtain ⟨back, rfl⟩ := List.head?_eq_some_iff.1 h
  have hsplit' : s.toList = (front ++ [v]) ++ w :: back := by
    rw [hsplit, List.append_assoc, List.singleton_append]
  rw [prev?_of_split hsplit', List.getLast?_concat]

/-- The neighbours of a version, in the set or not, are the nearest members beside it, and from either end they
lead through all members, one by one. -/
structure Navigable (s : VersionSet) : Prop where
  next : ∀ v w, s.next? v = some w ↔ IsLeast {u | u ∈ s ∧ v < u} w
  next_ends : ∀ v, s.next? v = none ↔ ∀ u ∈ s, u ≤ v
  prev : ∀ v w, s.prev? v = some w ↔ IsGreatest {u | u ∈ s ∧ u < v} w
  prev_ends : ∀ v, s.prev? v = none ↔ ∀ u ∈ s, v ≤ u
  forth : ∀ vs, Visits s.next? s.first? vs ↔ vs = s.toList
  back : ∀ vs, Visits s.prev? s.last? vs ↔ vs = s.toList.reverse
  returns : ∀ v ∈ s, ∀ w, s.next? v = some w → s.prev? w = some v

theorem navigable (s : VersionSet) : s.Navigable where
  next _ _ := next?_eq_some_iff_isLeast
  next_ends _ := next?_eq_none_iff
  prev _ _ := prev?_eq_some_iff_isGreatest
  prev_ends _ := prev?_eq_none_iff
  forth _ := ⟨fun h => h.unique s.visits_forth, fun h => h ▸ s.visits_forth⟩
  back _ := ⟨fun h => h.unique s.visits_back, fun h => h ▸ s.visits_back⟩
  returns _ hv _ h := prev?_next? hv h

/-- After any updates the members are the versions that were added, or there before, and not discarded since;
they are found from each other in both directions; and one more update reports whether it changes them. -/
theorem updated_navigable (s : VersionSet) (us : List Update) :
    (∀ v, v ∈ s.updateAll us ↔ Added v us ∨ v ∈ s ∧ .discard v ∉ us) ∧
    (s.updateAll us).Navigable ∧
    ∀ u : Update, (u.apply (s.updateAll us)).1 = true ↔ s.updateAll (us ++ [u]) ≠ s.updateAll us := by
  refine ⟨fun v => mem_updateAll, navigable _, fun u => ?_⟩
  have hlast : s.updateAll (us ++ [u]) = (u.apply (s.updateAll us)).2 := by simp [updateAll]
  rw [hlast]
  exact u.apply_changed_iff

end EngineMigrate.VersionSet
