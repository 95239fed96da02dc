import EngineMigrate.Proofs.PlanFaults

/-!
The status of a project: local files and applied versions side by side.  Main statement: there is one row for
each version that is on either side and no other, in ascending order, each row tells which sides these are,
and what a plan takes is on the sides that the plan needs.
-/
namespace EngineMigrate

variable {s : Source} {applied : VersionSet} {row : StatusRow}

def Source.rowOf (s : Source) (applied : VersionSet) (v : ℕ) : StatusRow :=
  ⟨v, s.name? v, s.contains v, applied.contains v⟩

/-- A row tells on which sides its version is, one of them at least, and has a name from a local file. -/
structure StatusRow.Tells (row : StatusRow) (s : Source) (applied : VersionSet) : Prop where
  source : row.sourcePresent = true ↔ s.filesOf row.version .up ≠ [] ∨ s.filesOf row.version .down ≠ []
  database : row.databasePresent = true ↔ row.version ∈ applied
  either : row.sourcePresent = true ∨ row.databasePresent = true
  named : row.name.isSome = row.sourcePresent

namespace Source

theorem status_eq (s : Source) (applied : VersionSet) : s.status applied =
    (VersionSet.ofList (s.versions.toList ++ applied.toList)).toList.map (s.rowOf applied) :=
  rfl

theorem mem_status : row ∈ s.status applied ↔
    (row.version ∈ s.versions ∨ row.version ∈ applied) ∧ row = s.rowOf applied row.version := by
  rw [status_eq, List.mem_map]
  constructor
  · rintro ⟨v, hv, rfl⟩
    refine ⟨?_, rfl⟩
    simpa [rowOf] using hv
  · rintro ⟨hv, hrow⟩
    exact ⟨row.version, by simpa using hv, hrow.symm⟩

theorem rowOf_mem_status {v : ℕ} (h : v ∈ s.versions ∨ v ∈ applied) :
    s.rowOf applied v ∈ s.status applied :=
  mem_status.2 ⟨h, rfl⟩

theorem versions_status_ascending (s : Source) (applied : VersionSet) :
    ((s.status applied).map StatusRow.version).Pairwise (· < ·) := by
  rw [status_eq, List.map_map]
  simpa [Function.comp_def, rowOf] using (VersionSet.ofList (s.versions.toList ++ applied.toList)).ascending

theorem mem_versions_iff_filesOf {v : ℕ} :
    v ∈ s.versions ↔ s.filesOf v .up ≠ [] ∨ s.filesOf v .down ≠ [] := by
  rw [mem_versions_iff, Lacks]
  constructor
  · intro h
    by_contra hnone
    rw [not_or, not_not, not_not] at hnone
    exact h fun d => by cases d; exacts [hnone.1, hnone.2]
  · rintro (h | h) hlacks
    · exact h (hlacks .up)
    · exact h (hlacks .down)

theorem isSome_name? (s : Source) (v : ℕ) : (s.name? v).isSome = s.contains v := by
  rw [name?, Option.isSome_map, contains, Bool.eq_iff_iff, List.find?_isSome, List.any_eq_true]

theorem tells_of_mem_status (h : row ∈ s.status applied) : row.Tells s applied := by
  obtain ⟨hside, hrow⟩ := mem_status.1 h
  rw [hrow]
  refine ⟨?_, VersionSet.contains_iff, ?_, isSome_name? s row.version⟩
  · exact contains_iff.trans mem_versions_iff_filesOf
  · exact hside.imp contains_iff.2 VersionSet.contains_iff.2

theorem existsUnique_row {v : ℕ} (h : v ∈ s.versions ∨ v ∈ applied) :
    ∃! row, row ∈ s.status applied ∧ row.version = v := by
  refine ⟨s.rowOf applied v, ⟨rowOf_mem_status h, rfl⟩, ?_⟩
  rintro row ⟨hrow, rfl⟩
  exact (mem_status.1 hrow).2

theorem row_of_mem_up {p : Plan} (h : Plan.build s applied (.up none) = .ok p) {step : Step} (hstep : step ∈ p) :
    ∃ row ∈ s.status applied, row.version = step.version ∧ row.name = step.name ∧
      row.sourcePresent = true ∧ row.databasePresent = false := by
  rw [Plan.build_up] at h
  cases h
  obtain ⟨v, hv, rfl⟩ := List.mem_map.1 hstep
  obtain ⟨hfile, hnew⟩ := Plan.mem_pending.1 hv
  have hlocal : v ∈ s.versions := mem_versions_iff_filesOf.2 (.inl hfile)
  refine ⟨s.rowOf applied v, rowOf_mem_status (.inl hlocal), rfl, rfl, contains_iff.2 hlocal, ?_⟩
  rw [rowOf, ← Bool.not_eq_true, VersionSet.contains_iff]
  exact hnew

/-- What is taken down is applied, and the plan would have been refused without a local file for it. -/
theorem row_of_mem_down {p : Plan} (h : Plan.build s applied (.down none) = .ok p) {step : Step}
    (hstep : step ∈ p) :
    ∃ row ∈ s.status applied, row.version = step.version ∧ row.name = step.name ∧
      row.sourcePresent = true ∧ row.databasePresent = true := by
  obtain ⟨hfree, rfl⟩ := Plan.steps_eq_ok_iff.1 h
  obtain ⟨v, hv, rfl⟩ := List.mem_map.1 hstep
  have happlied : v ∈ applied := by simpa [Plan.takeUpTo] using hv
  have hlocal : v ∈ s.versions := by
    rw [mem_versions_iff, ← Plan.stuck_down_iff]
    exact hfree v hv
  exact ⟨s.rowOf applied v, rowOf_mem_status (.inr happlied), rfl, rfl, contains_iff.2 hlocal,
    VersionSet.contains_iff.2 happlied⟩

/-- The status has its rows in strictly ascending order, one for each version that has a local file or is
applied and no other, and each row tells which of the two it is.  All that is pending is taken up from rows
that are local only, and a plan to take down all that is applied has its versions from rows of both sides. -/
theorem status_joins (s : Source) (applied : VersionSet) :
    ((s.status applied).map StatusRow.version).Pairwise (· < ·) ∧
    (∀ v, (s.filesOf v .up ≠ [] ∨ s.filesOf v .down ≠ []) ∨ v ∈ applied →
      ∃! row, row ∈ s.status applied ∧ row.version = v) ∧
    (∀ row ∈ s.status applied, row.Tells s applied) ∧
    (∃ p, Plan.build s applied (.up none) = .ok p ∧ ∀ step ∈ p, ∃ row ∈ s.status applied,
      row.version = step.version ∧ row.name = step.name ∧
      row.sourcePresent = true ∧ row.databasePresent = false) ∧
    ∀ p, Plan.build s applied (.down none) = .ok p → ∀ step ∈ p, ∃ row ∈ s.status applied,
      row.version = step.version ∧ row.name = step.name ∧
      row.sourcePresent = true ∧ row.databasePresent = true := by
  refine ⟨versions_status_ascending s applied, fun v hv => existsUnique_row ?_,
    fun row => tells_of_mem_status, ⟨_, Plan.build_up s applied none, fun step => ?_⟩,
    fun p h step => row_of_mem_down h⟩
  · rwa [mem_versions_iff_filesOf]
  · exact row_of_mem_up (Plan.build_up s applied none)

-- A down file alone makes a row, as a record without any file does.
example : Source.status ⟨"m", [⟨2000, "b", .down, .sql, ["2000_b.down.sql"]⟩]⟩ (.ofList [1000]) =
    [⟨1000, none, false, true⟩, ⟨2000, some "b", true, false⟩] := by
  decide

end Source
end EngineMigrate
