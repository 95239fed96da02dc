import EngineMigrate.Proofs.PlanSteps
import Mathlib.Data.Set.Card

/-!
What a plan does to the applied versions.  Main statement: a plan that is built goes down before it goes
up, visits a version at most once, finds every version where it takes it from, carries the files of
its source, and ends at exactly the versions that its target asks for.
-/
namespace EngineMigrate

theorem mem_take_iff_of_pairwise {α : Type} {r : α → α → Prop} [DecidableRel r]
    (hr : ∀ a b, r a b → ¬ r b a) {l : List α} (h : l.Pairwise r) (n : ℕ) (v : α) :
    v ∈ l.take n ↔ v ∈ l ∧ (l.filter fun u => r u v).length < n := by
  induction l generalizing n with
  | nil => simp
  | cons a l ih =>
    obtain ⟨ha, hl⟩ := List.pairwise_cons.1 h
    have hirr : ∀ b, ¬ r b b := fun b hb => hr b b hb hb
    cases n with
    | zero => simp
    | succ n =>
      rw [List.take_succ_cons, List.mem_cons, List.mem_cons, ih hl n]
      by_cases hv : v = a
      · subst hv
        have hnone : l.filter (fun u => r u v) = [] := by
          simpa using fun u hu => hr v u (ha u hu)
        simp [hirr v, hnone]
      · constructor
        · rintro (hva | ⟨hm, hlen⟩)
          · exact absurd hva hv
          · refine ⟨.inr hm, ?_⟩
            simpa [List.filter_cons, ha v hm] using hlen
        · rintro ⟨hm, hlen⟩
          have hm := hm.resolve_left hv
          refine .inr ⟨hm, ?_⟩
          simpa [List.filter_cons, ha v hm] using hlen

theorem ncard_setOf_mem {α : Type} {l : List α} (h : l.Nodup) : {a | a ∈ l}.ncard = l.length := by
  classical
  have hset : {a | a ∈ l} = (l.toFinset : Set α) := by
    ext a
    simp
  rw [hset, Set.ncard_coe_finset, List.toFinset_card_of_nodup h]

theorem mem_take_iff_ncard {α : Type} {r : α → α → Prop} [DecidableRel r]
    (hr : ∀ a b, r a b → ¬ r b a) {l : List α} (h : l.Pairwise r) (n : ℕ) (v : α) :
    v ∈ l.take n ↔ v ∈ l ∧ {u | u ∈ l ∧ r u v}.ncard < n := by
  have hne : ∀ {a b}, r a b → a ≠ b := by
    rintro a _ hab rfl
    exact hr a a hab hab
  have hnodup : (l.filter fun u => r u v).Nodup := (h.imp hne).filter _
  rw [mem_take_iff_of_pairwise hr h, ← ncard_setOf_mem hnodup]
  simp only [List.mem_filter, decide_eq_true_eq]

/-- A version that has an up file and is not applied. -/
def IsPending (s : Source) (applied : VersionSet) (v : ℕ) : Prop :=
  s.filesOf v .up ≠ [] ∧ v ∉ applied

/-- The versions that are to be applied once a target is reached. -/
def Target.goal (s : Source) (applied : VersionSet) : Target → Set ℕ
  | .up none => {v | v ∈ applied ∨ IsPending s applied v}
  | .up (some n) =>
    {v | v ∈ applied ∨ IsPending s applied v ∧ {u | IsPending s applied u ∧ u < v}.ncard < n}
  | .down none => ∅
  | .down (some n) => {v | v ∈ applied ∧ n ≤ {u | u ∈ applied ∧ v < u}.ncard}
  | .goto t => {v | v ∈ applied ∧ v ≤ t} ∪ {v | s.filesOf v .up ≠ [] ∧ v ≤ t}
  | .only v .up => {u | u ∈ applied ∨ u = v}
  | .only v .down => {u | u ∈ applied ∧ u ≠ v}

namespace Plan

/-- Replayed from the applied versions, a step down finds its version applied and a step up does not. -/
def Executable : VersionSet → Plan → Prop
  | _, [] => True
  | applied, step :: rest =>
    (step.version ∈ applied ↔ step.direction = .down) ∧ Executable (replayStep applied step) rest

/-- Steps down come first and descend, steps up follow and ascend. -/
def DownThenUp (p : Plan) : Prop :=
  ∃ down up : Plan, p = down ++ up ∧
    (∀ step ∈ down, step.direction = .down) ∧ (∀ step ∈ up, step.direction = .up) ∧
    down.Pairwise (fun a b => b.version < a.version) ∧
    up.Pairwise (fun a b => a.version < b.version)

/-- A step carries the files that the source has for it, and a step up has some. -/
def Sourced (s : Source) (step : Step) : Prop :=
  step.files = s.filesOf step.version step.direction ∧ (step.direction = .up → step.files ≠ [])

/-- What a plan for a target promises. -/
structure Fulfils (s : Source) (applied : VersionSet) (target : Target) (p : Plan) : Prop where
  downThenUp : p.DownThenUp
  once : (p.map Step.version).Nodup
  executable : p.Executable applied
  sourced : ∀ step ∈ p, Sourced s step
  reached : ∀ v, v ∈ replay applied p ↔ v ∈ target.goal s applied

theorem executable_append {applied : VersionSet} {p q : Plan} :
    Executable applied (p ++ q) ↔ Executable applied p ∧ Executable (replay applied p) q := by
  induction p generalizing applied with
  | nil => simp [Executable, replay]
  | cons step p ih =>
    simp only [List.cons_append, Executable, ih, and_assoc]
    rfl

theorem replay_cons (applied : VersionSet) (step : Step) (p : Plan) :
    replay applied (step :: p) = replay (replayStep applied step) p := rfl

theorem mem_replay_down {p : Plan} (h : ∀ step ∈ p, step.direction = .down) {applied : VersionSet}
    {v : ℕ} : v ∈ replay applied p ↔ v ∈ applied ∧ v ∉ p.map Step.version := by
  induction p generalizing applied with
  | nil => simp [replay]
  | cons step p ih =>
    have hd := h step List.mem_cons_self
    rw [replay_cons, ih fun x hx => h x (List.mem_cons_of_mem _ hx)]
    simp [replayStep, hd, and_assoc]

theorem mem_replay_up {p : Plan} (h : ∀ step ∈ p, step.direction = .up) {applied : VersionSet}
    {v : ℕ} : v ∈ replay applied p ↔ v ∈ applied ∨ v ∈ p.map Step.version := by
  induction p generalizing applied with
  | nil => simp [replay]
  | cons step p ih =>
    have hu := h step List.mem_cons_self
    rw [replay_cons, ih fun x hx => h x (List.mem_cons_of_mem _ hx)]
    simp [replayStep, hu, or_assoc, or_left_comm]

theorem mem_replayStep_of_ne {applied : VersionSet} {step : Step} {v : ℕ} (h : v ≠ step.version) :
    v ∈ replayStep applied step ↔ v ∈ applied := by
  unfold replayStep
  cases step.direction <;> simp [h]

theorem executable_of_direction {d : Direction} {p : Plan} (h : ∀ step ∈ p, step.direction = d)
    (hn : (p.map Step.version).Nodup) {applied : VersionSet}
    (ha : ∀ v ∈ p.map Step.version, v ∈ applied ↔ d = .down) : Executable applied p := by
  induction p generalizing applied with
  | nil => trivial
  | cons step p ih =>
    obtain ⟨hnot, hn⟩ := List.nodup_cons.1 hn
    obtain ⟨hfirst, hrest⟩ := List.forall_mem_cons.1 ha
    refine ⟨by rw [hfirst, h step List.mem_cons_self], ?_⟩
    refine ih (fun x hx => h x (List.mem_cons_of_mem _ hx)) hn fun v hv => ?_
    have hne : v ≠ step.version := fun he => hnot (he ▸ hv)
    rw [mem_replayStep_of_ne hne]
    exact hrest v hv

theorem sourced_of_steps {s : Source} {d : Direction} {vs : List ℕ} {p : Plan} (h : steps s d vs = .ok p) :
    ∀ step ∈ p, Sourced s step := by
  obtain ⟨hgo, rfl⟩ := steps_eq_ok_iff.1 h
  intro step hstep
  obtain ⟨v, hv, rfl⟩ := List.mem_map.1 hstep
  refine ⟨rfl, ?_⟩
  rintro rfl hnone
  exact hgo v hv (stuck_up_iff.2 hnone)

theorem steps_eq_ok {s : Source} {d : Direction} {vs : List ℕ} {p : Plan} (h : steps s d vs = .ok p) :
    p.map Step.version = vs ∧ ∀ step ∈ p, step.direction = d ∧ Sourced s step := by
  have hsourced := sourced_of_steps h
  obtain ⟨-, rfl⟩ := steps_eq_ok_iff.1 h
  exact ⟨map_version_stepOf s d vs, fun step hstep => ⟨direction_of_mem_stepOf hstep, hsourced step hstep⟩⟩

theorem filesOf_ne_nil_of_steps {s : Source} {vs : List ℕ} {p : Plan} (h : steps s .up vs = .ok p)
    {v : ℕ} (hv : v ∈ vs) : s.filesOf v .up ≠ [] :=
  fun hnone => (steps_eq_ok_iff.1 h).1 v hv (stuck_up_iff.2 hnone)

theorem mem_pending {s : Source} {applied : VersionSet} {v : ℕ} :
    v ∈ pending s applied ↔ IsPending s applied v := by
  simp [pending, IsPending, Source.up, Source.mem_versionsOf, ← Bool.not_eq_true]

theorem pending_ascending (s : Source) (applied : VersionSet) :
    (pending s applied).Pairwise (· < ·) := s.up.ascending.filter _

theorem takeUpTo_sublist {α : Type} (limit : Option ℕ) (xs : List α) :
    (takeUpTo limit xs).Sublist xs := by
  cases limit with
  | none => exact List.Sublist.refl xs
  | some n => exact List.take_sublist n xs

def downs (applied : VersionSet) : Target → List ℕ
  | .down limit => takeUpTo limit applied.toList.reverse
  | .goto t => applied.toList.reverse.filter (t < ·)
  | .only v .down => [v]
  | _ => []

def ups (s : Source) (applied : VersionSet) : Target → List ℕ
  | .up limit => takeUpTo limit (pending s applied)
  | .goto t => (pending s applied).filter (· ≤ t)
  | .only v .up => [v]
  | _ => []

theorem downs_descending (applied : VersionSet) (target : Target) :
    (downs applied target).Pairwise (· > ·) := by
  have hrev : applied.toList.reverse.Pairwise (· > ·) := List.pairwise_reverse.2 applied.ascending
  rcases target with limit | limit | t | ⟨v, _ | _⟩
  · exact List.Pairwise.nil
  · exact hrev.sublist (takeUpTo_sublist limit _)
  · exact hrev.filter _
  · exact List.Pairwise.nil
  · exact List.pairwise_singleton _ v

theorem ups_ascending (s : Source) (applied : VersionSet) (target : Target) :
    (ups s applied target).Pairwise (· < ·) := by
  have hp := pending_ascending s applied
  rcases target with limit | limit | t | ⟨v, _ | _⟩
  · exact hp.sublist (takeUpTo_sublist limit _)
  · exact List.Pairwise.nil
  · exact hp.filter _
  · exact List.pairwise_singleton _ v
  · exact List.Pairwise.nil

/-- A plan is its way down and then its way up.  What goes down is applied and what goes up is not. -/
theorem build_eq_ok {s : Source} {applied : VersionSet} {target : Target} {p : Plan}
    (h : build s applied target = .ok p) :
    ∃ down up, p = down ++ up ∧
      steps s .down (downs applied target) = .ok down ∧ steps s .up (ups s applied target) = .ok up ∧
      (∀ v ∈ downs applied target, v ∈ applied) ∧ (∀ v ∈ ups s applied target, v ∉ applied) := by
  have hpending : ∀ v ∈ pending s applied, v ∉ applied := fun v hv => (mem_pending.1 hv).2
  rcases target with limit | limit | t | ⟨v, _ | _⟩
  · refine ⟨[], p, rfl, rfl, h, by simp [downs], fun v hv => ?_⟩
    exact hpending v ((takeUpTo_sublist limit _).mem hv)
  · refine ⟨p, [], by simp, h, rfl, fun v hv => ?_, by simp [ups]⟩
    simpa using (takeUpTo_sublist limit _).mem hv
  · simp only [build] at h
    split at h
    · cases h
    · cases hd : steps s .down (applied.toList.reverse.filter (t < ·)) with
      | error e => rw [hd] at h; cases h
      | ok down =>
        rw [hd] at h
        cases hu : steps s .up ((pending s applied).filter (· ≤ t)) with
        | error e => rw [hu] at h; cases h
        | ok up =>
          rw [hu] at h
          cases h
          refine ⟨down, up, rfl, hd, hu, fun v hv => ?_, fun v hv => ?_⟩
          · simpa using (List.mem_filter.1 hv).1
          · exact hpending v (List.mem_filter.1 hv).1
  · simp only [build] at h
    split at h
    · cases h
    · rename_i hv
      exact ⟨[], p, rfl, rfl, h, by simp [downs], by simpa [ups] using hv⟩
  · simp only [build] at h
    split at h
    · rename_i hv
      exact ⟨p, [], by simp, h, rfl, by simpa [downs] using hv, by simp [ups]⟩
    · cases h

/-- The next versions to apply are those with few pending below them. -/
theorem mem_take_pending {s : Source} {applied : VersionSet} {n v : ℕ} : v ∈ (pending s applied).take n ↔
    IsPending s applied v ∧ {u | IsPending s applied u ∧ u < v}.ncard < n := by
  simpa only [mem_pending] using
    mem_take_iff_ncard (fun _ _ => Nat.lt_asymm) (pending_ascending s applied) n v

theorem mem_take_applied {applied : VersionSet} {n v : ℕ} : v ∈ applied.toList.reverse.take n ↔
    v ∈ applied ∧ {u | u ∈ applied ∧ v < u}.ncard < n := by
  simpa only [List.mem_reverse, VersionSet.mem_toList] using
    mem_take_iff_ncard (r := (· > ·)) (fun _ _ => Nat.lt_asymm)
      (List.pairwise_reverse.2 applied.ascending) n v

/-- What is neither rolled back nor missing at the end is what the target asks for.  A step up that was
built had a file. -/
theorem mem_goal_iff {s : Source} {applied : VersionSet} {target : Target}
    (hfile : ∀ v ∈ ups s applied target, s.filesOf v .up ≠ []) (v : ℕ) :
    v ∈ target.goal s applied ↔
      v ∈ applied ∧ v ∉ downs applied target ∨ v ∈ ups s applied target := by
  rcases target with (_ | n) | (_ | n) | t | ⟨w, _ | _⟩
  · simp [Target.goal, downs, ups, takeUpTo, mem_pending]
  · simp only [Target.goal, downs, ups, takeUpTo, Set.mem_ofPred_eq, mem_take_pending,
      List.not_mem_nil, not_false_eq_true, and_true]
  · simp [Target.goal, downs, ups, takeUpTo]
  · simp only [Target.goal, downs, ups, takeUpTo, Set.mem_ofPred_eq, mem_take_applied,
      List.not_mem_nil, or_false, not_and, not_lt]
    constructor
    · rintro ⟨hv, hn⟩
      exact ⟨hv, fun _ => hn⟩
    · rintro ⟨hv, hn⟩
      exact ⟨hv, hn hv⟩
  · simp only [Target.goal, downs, ups, Set.mem_union, Set.mem_ofPred_eq, List.mem_filter,
      List.mem_reverse, VersionSet.mem_toList, mem_pending, IsPending, decide_eq_true_eq, not_and,
      not_lt]
    by_cases hv : v ∈ applied
    · simp [hv]
    · simp [hv]
  · simp [Target.goal, downs, ups]
  · simp [Target.goal, downs, ups]

section

variable {s : Source} {applied : VersionSet} {target : Target} {p : Plan}

/-- A plan that is built goes down through the versions to roll back and then up through those to
apply. -/
theorem downThenUp_of_build (h : build s applied target = .ok p) : p.DownThenUp := by
  obtain ⟨down, up, rfl, hdown, hup, -, -⟩ := build_eq_ok h
  obtain ⟨hdv, hdown⟩ := steps_eq_ok hdown
  obtain ⟨huv, hup⟩ := steps_eq_ok hup
  have hdesc := downs_descending applied target
  have hasc := ups_ascending s applied target
  rw [← hdv] at hdesc
  rw [← huv] at hasc
  exact ⟨down, up, rfl, fun step hs => (hdown step hs).1, fun step hs => (hup step hs).1,
    List.pairwise_map.1 hdesc, List.pairwise_map.1 hasc⟩

theorem nodup_of_build (h : build s applied target = .ok p) : (p.map Step.version).Nodup := by
  obtain ⟨down, up, rfl, hdown, hup, hds, hus⟩ := build_eq_ok h
  rw [List.map_append, (steps_eq_ok hdown).1, (steps_eq_ok hup).1]
  have hdn : (downs applied target).Nodup := (downs_descending applied target).imp Nat.ne_of_gt
  have hun : (ups s applied target).Nodup := (ups_ascending s applied target).imp Nat.ne_of_lt
  refine List.nodup_append.2 ⟨hdn, hun, ?_⟩
  rintro v hv _ hw rfl
  exact hus v hw (hds v hv)

/-- A plan that is built finds each version where it takes it from. -/
theorem executable_of_build (h : build s applied target = .ok p) : p.Executable applied := by
  obtain ⟨down, up, rfl, hdown, hup, hds, hus⟩ := build_eq_ok h
  obtain ⟨hdv, hdown⟩ := steps_eq_ok hdown
  obtain ⟨huv, hup⟩ := steps_eq_ok hup
  have hdd : ∀ step ∈ down, step.direction = .down := fun step hs => (hdown step hs).1
  have huu : ∀ step ∈ up, step.direction = .up := fun step hs => (hup step hs).1
  have hdn : (down.map Step.version).Nodup := hdv ▸ (downs_descending applied target).imp Nat.ne_of_gt
  have hun : (up.map Step.version).Nodup := huv ▸ (ups_ascending s applied target).imp Nat.ne_of_lt
  refine executable_append.2 ⟨executable_of_direction hdd hdn fun v hv => ?_,
    executable_of_direction huu hun fun v hv => ?_⟩
  · exact iff_of_true (hds v (hdv ▸ hv)) rfl
  · refine iff_of_false (fun hmem => ?_) (by simp)
    exact hus v (huv ▸ hv) ((mem_replay_down hdd).1 hmem).1

theorem sourced_of_build (h : build s applied target = .ok p) : ∀ step ∈ p, Sourced s step := by
  obtain ⟨down, up, rfl, hdown, hup, -, -⟩ := build_eq_ok h
  intro step hs
  rcases List.mem_append.1 hs with hs | hs
  · exact ((steps_eq_ok hdown).2 step hs).2
  · exact ((steps_eq_ok hup).2 step hs).2

theorem mem_files_of_build (h : build s applied target = .ok p) :
    ∀ step ∈ p, ∀ f ∈ step.files, f ∈ s.files := by
  intro step hstep f hf
  rw [(sourced_of_build h step hstep).1] at hf
  exact (Source.mem_filesOf.1 hf).1

/-- A plan that is built ends at the versions that its target asks for. -/
theorem mem_replay_of_build (h : build s applied target = .ok p) (v : ℕ) :
    v ∈ replay applied p ↔ v ∈ target.goal s applied := by
  obtain ⟨down, up, rfl, hdown, hup, -, -⟩ := build_eq_ok h
  obtain ⟨hdv, hdd⟩ := steps_eq_ok hdown
  obtain ⟨huv, huu⟩ := steps_eq_ok hup
  rw [replay_append, mem_replay_up fun step hs => (huu step hs).1,
    mem_replay_down fun step hs => (hdd step hs).1, hdv, huv]
  exact (mem_goal_iff (fun v hv => filesOf_ne_nil_of_steps hup hv) v).symm

end

/-- A plan that is built keeps every promise of its target. -/
theorem fulfils_of_build {s : Source} {applied : VersionSet} {target : Target} {p : Plan}
    (h : build s applied target = .ok p) : p.Fulfils s applied target where
  downThenUp := downThenUp_of_build h
  once := nodup_of_build h
  executable := executable_of_build h
  sourced := sourced_of_build h
  reached := mem_replay_of_build h

/-- Between two applied versions: the later one is rolled back, and the version itself is applied with
its SQL before its metadata. -/
theorem fulfils_goto_between :
    let yaml : MigrationFile := ⟨2000, "b", .up, .metadata, ["2000_b", "up.yaml"]⟩
    let sql : MigrationFile := ⟨2000, "b", .up, .sql, ["2000_b.up.sql"]⟩
    let s : Source := ⟨"migrations", [yaml, sql, ⟨3000, "c", .up, .sql, ["3000_c", "up.sql"]⟩]⟩
    let p : Plan := [⟨3000, some "c", .down, []⟩, ⟨2000, some "b", .up, [sql, yaml]⟩]
    build s (.ofList [1000, 3000]) (.goto 2000) = .ok p ∧
      p.Fulfils s (.ofList [1000, 3000]) (.goto 2000) :=
  ⟨by decide, fulfils_of_build (by decide)⟩

/-- Exactly the versions up to this one are applied: none above it, and every one below it or equal to
it that has a file. -/
def AppliedUpTo (s : Source) (t : ℕ) (applied : VersionSet) : Prop :=
  (∀ v ∈ applied, v ≤ t) ∧ ∀ v ∈ s.versions, v ≤ t → v ∈ applied

/-- A plan to go to a version leaves none above it applied.  One up to it is left applied if it was
before or has an up file, and this alone decides whether the target is reached: a target with a down
file alone is accepted and left out. -/
theorem goto_reaches_iff {s : Source} {applied : VersionSet} {t : ℕ} {p : Plan}
    (h : build s applied (.goto t) = .ok p) :
    (∀ v, v ∈ replay applied p ↔ v ≤ t ∧ (v ∈ applied ∨ s.filesOf v .up ≠ [])) ∧
    (AppliedUpTo s t (replay applied p) ↔
      ∀ v ∈ s.versions, v ≤ t → v ∈ applied ∨ s.filesOf v .up ≠ []) ∧
    ((replay applied p).last? = some t ↔ t ∈ applied ∨ s.filesOf t .up ≠ []) := by
  have hreplay : ∀ v, v ∈ replay applied p ↔ v ≤ t ∧ (v ∈ applied ∨ s.filesOf v .up ≠ []) := by
    intro v
    rw [mem_replay_of_build h v]
    simp only [Target.goal, Set.mem_union, Set.mem_ofPred_eq]
    tauto
  refine ⟨hreplay, ?_, ?_⟩
  · constructor
    · rintro ⟨-, hall⟩ v hv hle
      exact ((hreplay v).1 (hall v hv hle)).2
    · intro hall
      refine ⟨fun v hv => ((hreplay v).1 hv).1, fun v hv hle => ?_⟩
      exact (hreplay v).2 ⟨hle, hall v hv hle⟩
  · rw [VersionSet.last?_eq_some_iff, hreplay]
    constructor
    · rintro ⟨⟨-, hmem⟩, -⟩
      exact hmem
    · intro hmem
      exact ⟨⟨Nat.le_refl t, hmem⟩, fun v hv => ((hreplay v).1 hv).1⟩

/-- One version is rolled back and one is applied; the third has a down file alone and stays out, so
the target is the latest applied version but not the only one up to it. -/
theorem goto_reaches_past_gap :
    let b : MigrationFile := ⟨2000, "b", .up, .sql, ["2000_b.up.sql"]⟩
    let s : Source := ⟨"migrations", [⟨1000, "a", .down, .sql, ["1000_a.down.sql"]⟩, b,
      ⟨3000, "c", .up, .sql, ["3000_c.up.sql"]⟩]⟩
    let p : Plan := [⟨3000, some "c", .down, []⟩, ⟨2000, some "b", .up, [b]⟩]
    build s (.ofList [3000]) (.goto 2000) = .ok p ∧
      (replay (.ofList [3000]) p).last? = some 2000 ∧ ¬ AppliedUpTo s 2000 (replay (.ofList [3000]) p) := by
  intro b s p
  have hbuild : build s (.ofList [3000]) (.goto 2000) = .ok p := by decide
  obtain ⟨-, hall, hlast⟩ := goto_reaches_iff hbuild
  refine ⟨hbuild, hlast.2 (by decide), fun hupTo => ?_⟩
  exact absurd (hall.1 hupTo 1000 (by decide) (by decide)) (by decide)

/-- A directory with a migration that can only be rolled back. -/
def rollbackOnly : FileTree :=
  ⟨[], [(["migrations"], .directory), (["migrations", "1000_a.down.sql"], .file "DROP TABLE a".toUTF8)]⟩

/-- With nothing applied the plan to go there is empty, and afterwards still nothing is. -/
theorem goto_leaves_target_out : ∃ s, Source.scan rollbackOnly "migrations" = .ok s ∧
    s.versions = .ofList [1000] ∧ build s .empty (.goto 1000) = .ok [] ∧
    ¬ AppliedUpTo s 1000 (replay .empty []) ∧ (replay .empty []).last? = none := by
  refine ⟨⟨"migrations", [⟨1000, "a", .down, .sql, ["1000_a.down.sql"]⟩]⟩, ?_, ?_, ?_, ?_, rfl⟩
  · decide +kernel
  · decide
  · decide
  · rintro ⟨-, hall⟩
    exact absurd (hall 1000 (by decide) (by decide)) (by decide)

end Plan

end EngineMigrate
