import EngineMigrate.Proofs.PlanOutcome

/-!
Targets that are refused.  Planning stops at the first version that cannot be taken; on the way down, where
versions descend, that is the greatest of them, and on the way up there is none.  Main statement: which
targets have a plan, and with which fault the others are refused.
-/
namespace EngineMigrate

/-- The greatest members, as many as are asked for; all of them, if no number is given. -/
def VersionSet.greatest (a : VersionSet) : Option ℕ → Set ℕ
  | none => {v | v ∈ a}
  | some n => {v | v ∈ a ∧ {u | u ∈ a ∧ v < u}.ncard < n}

/-- Each version to roll back has a file, and so has one to go to; a single version is where it is to be
taken from, and has a file to take it by. -/
def Target.Feasible (s : Source) (applied : VersionSet) : Target → Prop
  | .up _ => True
  | .down limit => ∀ v ∈ applied.greatest limit, ¬ s.Lacks v
  | .goto t => ¬ s.Lacks t ∧ ∀ v ∈ applied, t < v → ¬ s.Lacks v
  | .only v .up => v ∉ applied ∧ s.filesOf v .up ≠ []
  | .only v .down => v ∈ applied ∧ ¬ s.Lacks v

/-- Why a target is refused, and with what.  Going up is refused for no reason. -/
inductive Target.Refused (s : Source) (applied : VersionSet) : Target → PlanFault → Prop where
  | down {limit : Option ℕ} {v : ℕ} (h : IsGreatest {u | u ∈ applied.greatest limit ∧ s.Lacks u} v) :
    Refused s applied (.down limit) (.noDownMigration v)
  | gotoUnknown {t : ℕ} (h : s.Lacks t) : Refused s applied (.goto t) (.versionNotFound t)
  | gotoStuck {t v : ℕ} (ht : ¬ s.Lacks t)
    (h : IsGreatest {u | (u ∈ applied ∧ t < u) ∧ s.Lacks u} v) :
    Refused s applied (.goto t) (.noDownMigration v)
  | onlyApplied {v : ℕ} (h : v ∈ applied) : Refused s applied (.only v .up) (.alreadyApplied v)
  | onlyWithoutUp {v : ℕ} (h : v ∉ applied) (hfile : s.filesOf v .up = []) :
    Refused s applied (.only v .up) (.versionNotFound v)
  | onlyNotApplied {v : ℕ} (h : v ∉ applied) : Refused s applied (.only v .down) (.notApplied v)
  | onlyUnknown {v : ℕ} (h : v ∈ applied) (hfile : s.Lacks v) :
    Refused s applied (.only v .down) (.noDownMigration v)

namespace Plan

/-- Among descending versions the first that cannot be rolled back is the greatest. -/
theorem steps_down_eq_error_iff {s : Source} {vs : List ℕ} (h : vs.Pairwise (· > ·)) {e : PlanFault} :
    steps s .down vs = .error e ↔
      ∃ v, IsGreatest {u | u ∈ vs ∧ s.Lacks u} v ∧ e = .noDownMigration v := by
  have hascending : vs.reverse.Pairwise (· < ·) := List.pairwise_reverse.2 h
  have hfound : ∀ v, vs.find? (stuck s .down) = some v ↔ IsGreatest {u | u ∈ vs ∧ s.Lacks u} v := by
    intro v
    have hfirst := VersionSet.find?_reverse_ascending hascending (p := stuck s .down) (w := v)
    rw [List.reverse_reverse] at hfirst
    simp only [hfirst, List.mem_reverse, stuck_down_iff, IsGreatest, upperBounds, Set.mem_ofPred_eq,
      and_imp, and_assoc]
  simp only [steps_eq_error_iff, hfound, stuckFault]

variable (s : Source) (applied : VersionSet)

/-- What is pending has an up file, so the way up is never refused. -/
theorem steps_up_of_sublist {vs : List ℕ} (h : vs.Sublist (pending s applied)) :
    steps s .up vs = .ok (vs.map (stepOf s .up)) := by
  refine steps_eq_ok_iff.2 ⟨fun v hv => ?_, rfl⟩
  rw [stuck_up_iff]
  exact (mem_pending.1 (h.mem hv)).1

theorem build_up (limit : Option ℕ) : build s applied (.up limit) =
    .ok ((takeUpTo limit (pending s applied)).map (stepOf s .up)) :=
  steps_up_of_sublist s applied (takeUpTo_sublist limit _)

theorem mem_takeUpTo_reverse {limit : Option ℕ} {v : ℕ} :
    v ∈ takeUpTo limit applied.toList.reverse ↔ v ∈ applied.greatest limit := by
  cases limit with
  | none => simp [takeUpTo, VersionSet.greatest]
  | some n => exact mem_take_applied

theorem build_down_eq_error_iff {limit : Option ℕ} {e : PlanFault} :
    build s applied (.down limit) = .error e ↔ Target.Refused s applied (.down limit) e := by
  have hdescending : (takeUpTo limit applied.toList.reverse).Pairwise (· > ·) :=
    downs_descending applied (.down limit)
  rw [build, steps_down_eq_error_iff hdescending]
  simp only [mem_takeUpTo_reverse]
  constructor
  · rintro ⟨v, hv, rfl⟩
    exact .down hv
  · intro h
    cases h with
    | down hv => exact ⟨_, hv, rfl⟩

theorem build_goto_of_contains {t : ℕ} (h : s.contains t = true) : build s applied (.goto t) =
    (steps s .down (downs applied (.goto t))).map
      (· ++ (ups s applied (.goto t)).map (stepOf s .up)) := by
  have hup : steps s .up ((pending s applied).filter (· ≤ t)) = .ok _ :=
    steps_up_of_sublist s applied List.filter_sublist
  simp only [build, h, hup, downs, ups]
  cases steps s .down (applied.toList.reverse.filter (t < ·)) <;> rfl

theorem contains_iff_not_lacks {t : ℕ} : s.contains t = true ↔ ¬ s.Lacks t := by
  rw [Source.contains_iff, Source.mem_versions_iff]

theorem build_goto_of_lacks {t : ℕ} (h : s.Lacks t) :
    build s applied (.goto t) = .error (.versionNotFound t) := by
  have hcontains : s.contains t = false := by
    rw [← Bool.not_eq_true, contains_iff_not_lacks, not_not]
    exact h
  simp only [build, hcontains]
  rfl

theorem mem_downs_goto {t v : ℕ} : v ∈ downs applied (.goto t) ↔ v ∈ applied ∧ t < v := by
  simp [downs]

theorem build_goto_eq_error_iff {t : ℕ} {e : PlanFault} :
    build s applied (.goto t) = .error e ↔ Target.Refused s applied (.goto t) e := by
  by_cases ht : s.Lacks t
  · rw [build_goto_of_lacks s applied ht]
    constructor
    · rintro ⟨⟩
      exact .gotoUnknown ht
    · intro h
      cases h with
      | gotoUnknown => rfl
      | gotoStuck hknown => exact absurd ht hknown
  · have herror : build s applied (.goto t) = .error e ↔
        steps s .down (downs applied (.goto t)) = .error e := by
      rw [build_goto_of_contains s applied ((contains_iff_not_lacks s).2 ht)]
      cases steps s .down (downs applied (.goto t)) <;> simp [Except.map]
    rw [herror, steps_down_eq_error_iff (downs_descending applied (.goto t))]
    simp only [mem_downs_goto]
    constructor
    · rintro ⟨v, hv, rfl⟩
      exact .gotoStuck ht hv
    · intro h
      cases h with
      | gotoUnknown hunknown => exact absurd hunknown ht
      | gotoStuck _ hv => exact ⟨_, hv, rfl⟩

theorem steps_one_eq_error_iff {d : Direction} {v : ℕ} {e : PlanFault} :
    steps s d [v] = .error e ↔ stuck s d v = true ∧ e = stuckFault d v := by
  rw [steps_eq_error_iff]
  cases h : stuck s d v <;> simp [h]

theorem build_only_up_eq_error_iff {v : ℕ} {e : PlanFault} :
    build s applied (.only v .up) = .error e ↔ Target.Refused s applied (.only v .up) e := by
  by_cases hv : v ∈ applied
  · have hbuild : build s applied (.only v .up) = .error (.alreadyApplied v) := by
      simp [build, hv]
    rw [hbuild]
    constructor
    · rintro ⟨⟩
      exact .onlyApplied hv
    · intro h
      cases h with
      | onlyApplied => rfl
      | onlyWithoutUp hno => exact absurd hv hno
  · have hbuild : build s applied (.only v .up) = steps s .up [v] := by
      simp [build, hv]
    rw [hbuild, steps_one_eq_error_iff, stuck_up_iff]
    constructor
    · rintro ⟨hfile, rfl⟩
      exact .onlyWithoutUp hv hfile
    · intro h
      cases h with
      | onlyApplied hyes => exact absurd hyes hv
      | onlyWithoutUp _ hfile => exact ⟨hfile, rfl⟩

theorem build_only_down_eq_error_iff {v : ℕ} {e : PlanFault} :
    build s applied (.only v .down) = .error e ↔ Target.Refused s applied (.only v .down) e := by
  by_cases hv : v ∈ applied
  · have hbuild : build s applied (.only v .down) = steps s .down [v] := by
      simp [build, hv]
    rw [hbuild, steps_one_eq_error_iff, stuck_down_iff]
    constructor
    · rintro ⟨hfile, rfl⟩
      exact .onlyUnknown hv hfile
    · intro h
      cases h with
      | onlyNotApplied hno => exact absurd hv hno
      | onlyUnknown _ hfile => exact ⟨hfile, rfl⟩
  · have hbuild : build s applied (.only v .down) = .error (.notApplied v) := by
      simp [build, hv]
    rw [hbuild]
    constructor
    · rintro ⟨⟩
      exact .onlyNotApplied hv
    · intro h
      cases h with
      | onlyNotApplied => rfl
      | onlyUnknown hyes => exact absurd hyes hv

/-- A version can be gone to if it has a file, whatever its direction, and so has each applied version
above it. -/
theorem exists_build_goto_iff {t : ℕ} :
    (∃ p, build s applied (.goto t) = .ok p) ↔ Target.Feasible s applied (.goto t) := by
  rw [Target.Feasible]
  by_cases ht : s.Lacks t
  · simp [build_goto_of_lacks s applied ht, ht]
  · have hdown : (∃ p, steps s .down (downs applied (.goto t)) = .ok p) ↔
        ∀ v ∈ applied, t < v → ¬ s.Lacks v := by
      simp only [exists_steps_iff, stuck_down_iff, mem_downs_goto, and_imp]
    rw [build_goto_of_contains s applied ((contains_iff_not_lacks s).2 ht), ← hdown]
    cases steps s .down (downs applied (.goto t)) <;> simp [Except.map, ht]

theorem exists_build_iff {target : Target} :
    (∃ p, build s applied target = .ok p) ↔ target.Feasible s applied := by
  cases target with
  | up limit => exact iff_of_true ⟨_, build_up s applied limit⟩ trivial
  | down limit =>
    simp only [build, exists_steps_iff, stuck_down_iff, mem_takeUpTo_reverse, Target.Feasible]
  | goto t => exact exists_build_goto_iff s applied
  | only v d =>
    cases d with
    | up =>
      by_cases hv : v ∈ applied
      · simp [build, hv, Target.Feasible]
      · simp [build, hv, exists_steps_iff, stuck_up_iff, Target.Feasible]
    | down =>
      by_cases hv : v ∈ applied
      · simp [build, hv, exists_steps_iff, stuck_down_iff, Target.Feasible]
      · simp [build, hv, Target.Feasible]

/-- A target has a plan exactly if it is feasible, and it is refused exactly for the reasons above, with
their faults. -/
theorem build_feasible_or_refused (s : Source) (applied : VersionSet) (target : Target) :
    ((∃ p, build s applied target = .ok p) ↔ target.Feasible s applied) ∧
    ∀ e, build s applied target = .error e ↔ target.Refused s applied e := by
  refine ⟨exists_build_iff s applied, fun e => ?_⟩
  cases target with
  | up limit =>
    rw [build_up]
    constructor
    · nofun
    · nofun
  | down limit => exact build_down_eq_error_iff s applied
  | goto t => exact build_goto_eq_error_iff s applied
  | only v d =>
    cases d with
    | up => exact build_only_up_eq_error_iff s applied
    | down => exact build_only_down_eq_error_iff s applied

/-- Of two versions without files the greater is named. -/
example : build ⟨"m", [⟨1000, "a", .up, .sql, ["1000_a.up.sql"]⟩]⟩ (.ofList [1000, 3000, 5000])
    (.down none) = .error (.noDownMigration 5000) := by
  decide

end Plan

end EngineMigrate
