import EngineMigrate.Tracking.Change
import Mathlib.Data.List.Sort

/-!
The entries of a ledger.  Other tools keep entries there too, so they may stand in any order and a version
may have more than one; only an insertion sorts them.  Main statement: an insertion and a removal touch the
entries of their own version and nothing else, and over any changes the versions on record stay those of a
set that goes through the same changes.
-/
namespace EngineMigrate

/-- A stable sort leaves those members in their order that were in order. -/
theorem filter_mergeSort {α : Type} {le : α → α → Bool} {p : α → Bool} {as : List α}
    (htrans : ∀ a b c : α, le a b = true → le b c = true → le a c = true)
    (htotal : ∀ a b : α, (le a b || le b a) = true)
    (h : (as.filter p).Pairwise fun a b => le a b = true) : (as.mergeSort le).filter p = as.filter p := by
  have hsub := (List.sublist_mergeSort htrans htotal h List.filter_sublist).filter p
  have hself : (as.filter p).filter p = as.filter p := by simp [List.filter_filter]
  rw [hself] at hsub
  exact (hsub.eq_of_length ((List.mergeSort_perm as le).filter p).length_eq.symm).symm

theorem VersionSet.eq_of_mem_iff {a b : VersionSet} (h : ∀ v, v ∈ a ↔ v ∈ b) : a = b := by
  obtain ⟨as, ha⟩ := a
  obtain ⟨bs, hb⟩ := b
  have hs : as = bs := ha.eq_of_mem_iff hb fun v => h v
  subst hs
  rfl

namespace Ledger

variable {l : Ledger}

theorem byVersion_trans (a b c : Entry) (hab : decide (a.version ≤ b.version) = true)
    (hbc : decide (b.version ≤ c.version) = true) : decide (a.version ≤ c.version) = true := by
  rw [decide_eq_true_eq] at *
  exact Nat.le_trans hab hbc

theorem byVersion_total (a b : Entry) :
    (decide (a.version ≤ b.version) || decide (b.version ≤ a.version)) = true := by
  rw [Bool.or_eq_true, decide_eq_true_eq, decide_eq_true_eq]
  exact Nat.le_total _ _

theorem pairwise_sorted (es : List Entry) : (sorted es).Pairwise fun a b => a.version ≤ b.version :=
  (List.pairwise_mergeSort byVersion_trans byVersion_total es).imp of_decide_eq_true

theorem filter_sorted (es : List Entry) (v : Nat) :
    (sorted es).filter (·.version == v) = es.filter (·.version == v) := by
  refine filter_mergeSort byVersion_trans byVersion_total ?_
  refine List.pairwise_of_forall_mem_list fun a ha b hb => ?_
  have hav : a.version = v := by simpa using (List.mem_filter.1 ha).2
  have hbv : b.version = v := by simpa using (List.mem_filter.1 hb).2
  simp [hav, hbv]

theorem filter_remove (l : Ledger) (v w : Nat) :
    (l.remove v).entries.filter (·.version == w) =
      if w = v then [] else l.entries.filter (·.version == w) := by
  rw [remove, List.filter_filter]
  by_cases h : w = v
  · subst h
    simp
  · rw [if_neg h]
    refine List.filter_congr fun e _ => ?_
    by_cases he : e.version = w
    · simp [he, h]
    · simp [he]

theorem filter_insert (l : Ledger) (e : Entry) (w : Nat) :
    (l.insert e).entries.filter (·.version == w) =
      if w = e.version then [e] else l.entries.filter (·.version == w) := by
  rw [insert, filter_sorted, List.filter_append, filter_remove]
  by_cases h : w = e.version
  · simp [h]
  · have hne : e.version ≠ w := fun he => h he.symm
    simp [h, hne]

theorem mem_entries_insert (l : Ledger) (e x : Entry) :
    x ∈ (l.insert e).entries ↔ x = e ∨ x ∈ l.entries ∧ x.version ≠ e.version := by
  simp only [insert, sorted, remove, List.mem_mergeSort, List.mem_append, List.mem_filter, bne_iff_ne,
    List.mem_singleton]
  exact or_comm

/-- One entry for each version on record, by version. -/
def Ascending (l : Ledger) : Prop := l.entries.Pairwise fun a b => a.version < b.version

/-- An insertion leaves one entry of each version, whatever order they were in. -/
theorem Ascending.insert (h : l.Ascending) (e : Entry) : (l.insert e).Ascending := by
  have hdistinct : (l.insert e).versions.Nodup := by
    have hold : (l.remove e.version).versions.Nodup :=
      ((List.pairwise_map.2 h).imp Nat.ne_of_lt).sublist (List.filter_sublist.map _)
    have hnew : e.version ∉ (l.remove e.version).versions := by
      rw [mem_versions_remove]
      exact fun hmem => hmem.2 rfl
    have hperm : (l.insert e).versions.Perm ((l.remove e.version).versions ++ [e.version]) := by
      have hmap := (List.mergeSort_perm ((l.remove e.version).entries ++ [e])
        fun a b => decide (a.version ≤ b.version)).map Entry.version
      rwa [List.map_append] at hmap
    rw [hperm.nodup_iff]
    refine List.nodup_append.2 ⟨hold, by simp, fun v hv w hw => ?_⟩
    rw [List.mem_singleton.1 hw]
    exact fun heq => hnew (heq ▸ hv)
  exact ((pairwise_sorted _).and (List.pairwise_map.1 hdistinct)).imp fun hab =>
    Nat.lt_of_le_of_ne hab.1 hab.2

theorem Ascending.remove (h : l.Ascending) (v : Nat) : (l.remove v).Ascending := h.filter _

theorem Ascending.enter (h : l.Ascending) (c : Change) : (c.enter l).Ascending := by
  cases c with
  | record v name => exact h.insert _
  | erase v => exact h.remove v

theorem Ascending.enterAll (h : l.Ascending) (cs : List Change) : (Change.enterAll l cs).Ascending := by
  induction cs generalizing l with
  | nil => exact h
  | cons c cs ih => exact ih (h.enter c)

/-- The versions on record are the set that has gone through the same changes. -/
theorem ofList_versions_enterAll (l : Ledger) (cs : List Change) :
    VersionSet.ofList (Change.enterAll l cs).versions = Change.applyAll (.ofList l.versions) cs := by
  refine VersionSet.eq_of_mem_iff fun v => ?_
  rw [VersionSet.mem_ofList]
  exact Change.mem_versions_enterAll (fun w => VersionSet.mem_ofList.symm) cs v

theorem Ascending.versions_enterAll (h : l.Ascending) (cs : List Change) :
    (Change.enterAll l cs).versions = (Change.applyAll (.ofList l.versions) cs).toList := by
  refine (List.pairwise_map.2 (h.enterAll cs)).eq_of_mem_iff (VersionSet.ascending _) fun v => ?_
  rw [← ofList_versions_enterAll]
  exact VersionSet.mem_ofList.symm

/-- The second ledger is the first with an entry put on record: it is the only one of its version, all are
by version, and those of any other version are the same in the same order. -/
structure WithEntry (l : Ledger) (e : Entry) (l' : Ledger) : Prop where
  only : l'.entries.filter (·.version == e.version) = [e]
  byVersion : l'.entries.Pairwise fun a b => a.version ≤ b.version
  others : ∀ v, v ≠ e.version → l'.entries.filter (·.version == v) = l.entries.filter (·.version == v)
  rest : l' = { l with entries := l'.entries }

/-- The second ledger is the first without a version: no entry of it is left, and all others stand where
they stood. -/
structure WithoutVersion (l : Ledger) (v : Nat) (l' : Ledger) : Prop where
  none : ∀ e ∈ l'.entries, e.version ≠ v
  others : l'.entries.filter (·.version != v) = l.entries.filter (·.version != v)
  rest : l' = { l with entries := l'.entries }

theorem withEntry_insert (l : Ledger) (e : Entry) : l.WithEntry e (l.insert e) where
  only := by rw [filter_insert, if_pos rfl]
  byVersion := pairwise_sorted _
  others v hv := by rw [filter_insert, if_neg hv]
  rest := rfl

theorem withoutVersion_remove (l : Ledger) (v : Nat) : l.WithoutVersion v (l.remove v) where
  none e he := by simpa using (List.mem_filter.1 he).2
  others := by simp [remove, List.filter_filter]
  rest := rfl

/-- Whatever the entries are, an edit touches one version: an insertion leaves one entry of it, a removal
none and says whether there was one, and all else stays.  Over any changes the versions on record are those
of a set that went through them too; and entries that were strictly by version stay so. -/
theorem edits_touch_one_version (l : Ledger) :
    (∀ e, l.WithEntry e (l.insert e)) ∧
    (∀ v, l.WithoutVersion v (l.discard v).2 ∧ ((l.discard v).1 = true ↔ ∃ e ∈ l.entries, e.version = v)) ∧
    (∀ cs, VersionSet.ofList (Change.enterAll l cs).versions = Change.applyAll (.ofList l.versions) cs) ∧
    (l.Ascending → (∀ e, (l.insert e).Ascending) ∧ (∀ v, (l.discard v).2.Ascending) ∧
      ∀ cs, (Change.enterAll l cs).Ascending ∧
        (Change.enterAll l cs).versions = (Change.applyAll (.ofList l.versions) cs).toList) := by
  refine ⟨l.withEntry_insert, fun v => ⟨l.withoutVersion_remove v, ?_⟩, l.ofList_versions_enterAll,
    fun h => ⟨h.insert, h.remove, fun cs => ⟨h.enterAll cs, h.versions_enterAll cs⟩⟩⟩
  simp [discard, versions]

def twoEntries : Ledger := ⟨2, 0, [⟨1, none, true⟩, ⟨3, some "a", false⟩], Settings.default, []⟩

/-- A version recorded between two others, of which the later one is then removed. -/
theorem edits_touch_one_version_twoEntries : twoEntries.Ascending ∧
    (Change.enterAll twoEntries [.record 2 none, .erase 3]).Ascending ∧
    (Change.enterAll twoEntries [.record 2 none, .erase 3]).versions = [1, 2] := by
  have hascending : twoEntries.Ascending := by
    unfold Ascending
    decide
  obtain ⟨-, -, -, hkept⟩ := edits_touch_one_version twoEntries
  obtain ⟨hedited, hversions⟩ := (hkept hascending).2.2 [.record 2 none, .erase 3]
  refine ⟨hascending, hedited, ?_⟩
  rw [hversions]
  decide

/-- A version that is there twice stays there twice when another one is recorded. -/
example : ((Ledger.mk 2 0 [⟨3, none, false⟩, ⟨1, none, true⟩, ⟨3, some "a", false⟩] Settings.default []).insert
    ⟨2, none, false⟩).entries =
      [⟨1, none, true⟩, ⟨2, none, false⟩, ⟨3, none, false⟩, ⟨3, some "a", false⟩] := by
  cbv

end Ledger

end EngineMigrate
