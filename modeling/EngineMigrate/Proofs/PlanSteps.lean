import EngineMigrate.Local.Plan

/-!
The steps for some versions.  A version that cannot be taken in a direction has a fault of that direction.
Main statement: the steps for a list of versions are one for each of them, in order, or the fault of the
first that cannot be taken.
-/
namespace EngineMigrate

/-- There is no file for the version, in either direction. -/
def Source.Lacks (s : Source) (v : Nat) : Prop := ∀ d, s.filesOf v d = []

theorem Source.mem_versions_iff {s : Source} {v : Nat} : v ∈ s.versions ↔ ¬ s.Lacks v := by
  simp only [versions, VersionSet.mem_ofList, List.mem_map]
  constructor
  · rintro ⟨f, hf, hv⟩ h
    have hmem : f ∈ s.filesOf v f.direction := mem_filesOf.2 ⟨hf, hv, rfl⟩
    simp [h f.direction] at hmem
  · intro h
    obtain ⟨d, hd⟩ := Classical.not_forall.1 h
    obtain ⟨f, hmem⟩ := List.exists_mem_of_ne_nil _ hd
    obtain ⟨hf, hv, -⟩ := mem_filesOf.1 hmem
    exact ⟨f, hf, hv⟩

namespace Plan

/-- The step that takes a version, where it can be taken. -/
def stepOf (s : Source) (d : Direction) (v : Nat) : Step := ⟨v, s.name? v, d, s.filesOf v d⟩

/-- A version cannot be taken: it has no up file, or on the way down no file at all. -/
def stuck (s : Source) : Direction → Nat → Bool
  | .up, v => (s.filesOf v .up).isEmpty
  | .down, v => !s.contains v

def stuckFault : Direction → Nat → PlanFault
  | .up => .versionNotFound
  | .down => .noDownMigration

variable {s : Source} {d : Direction} {vs : List Nat}

theorem stuck_up_iff {v : Nat} : stuck s .up v = true ↔ s.filesOf v .up = [] :=
  List.isEmpty_iff

theorem stuck_down_iff {v : Nat} : stuck s .down v = true ↔ s.Lacks v := by
  rw [stuck, Bool.not_eq_true', ← Bool.not_eq_true, Source.contains_iff, Source.mem_versions_iff,
    Classical.not_not]

@[simp] theorem map_version_stepOf (s : Source) (d : Direction) (vs : List Nat) :
    (vs.map (stepOf s d)).map Step.version = vs := by
  simp [stepOf, Function.comp_def]

theorem direction_of_mem_stepOf {step : Step} (h : step ∈ vs.map (stepOf s d)) : step.direction = d := by
  obtain ⟨v, -, rfl⟩ := List.mem_map.1 h
  rfl

theorem step_eq (s : Source) (d : Direction) (v : Nat) : Plan.step s d v =
    if stuck s d v then .error (stuckFault d v) else .ok (stepOf s d v) := by
  cases d with
  | up => rfl
  | down =>
    simp only [Plan.step, stuck, stuckFault, stepOf]
    by_cases h : s.contains v = true <;> simp [h]

theorem steps_eq (s : Source) (d : Direction) (vs : List Nat) : steps s d vs =
    match vs.find? (stuck s d) with
    | some v => .error (stuckFault d v)
    | none => .ok (vs.map (stepOf s d)) := by
  induction vs with
  | nil => rfl
  | cons v vs ih =>
    rw [steps] at ih
    rw [steps, List.mapM_cons, step_eq, ih, List.find?_cons]
    cases stuck s d v with
    | true => rfl
    | false => cases vs.find? (stuck s d) <;> rfl

theorem steps_eq_ok_iff {p : Plan} : steps s d vs = .ok p ↔
    (∀ v ∈ vs, ¬ stuck s d v = true) ∧ p = vs.map (stepOf s d) := by
  rw [steps_eq, ← List.find?_eq_none]
  cases vs.find? (stuck s d) <;> simp [eq_comm]

/-- The first version that cannot be taken decides. -/
theorem steps_eq_error_iff {e : PlanFault} :
    steps s d vs = .error e ↔ ∃ v, vs.find? (stuck s d) = some v ∧ e = stuckFault d v := by
  rw [steps_eq]
  cases vs.find? (stuck s d) <;> simp [eq_comm]

theorem exists_steps_iff : (∃ p, steps s d vs = .ok p) ↔ ∀ v ∈ vs, ¬ stuck s d v = true := by
  simp only [steps_eq_ok_iff, exists_and_left, exists_eq, and_true]

theorem steps_append (s : Source) (d : Direction) (vs ws : List Nat) : steps s d (vs ++ ws) = (do
    let p ← steps s d vs
    let q ← steps s d ws
    return p ++ q) :=
  List.mapM_append

end Plan

end EngineMigrate
