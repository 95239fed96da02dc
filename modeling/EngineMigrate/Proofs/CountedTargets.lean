import EngineMigrate.Proofs.PlanFaults
import EngineMigrate.Proofs.ServerRecords

/-!
Targets that count.  What a plan takes leaves the queue of its direction from the front, so that a number of
versions can be taken in two parts, and what was last applied is what is first rolled back.  Main statements:
a counted target is its two parts one after the other, with the fault of the part that is refused first, and
going down as often as going up has gone leads back.
-/
namespace EngineMigrate

theorem mem_drop_iff_of_nodup {α : Type} {l : List α} (h : l.Nodup) (n : ℕ) (a : α) :
    a ∈ l.drop n ↔ a ∈ l ∧ a ∉ l.take n := by
  constructor
  · intro ha
    exact ⟨List.mem_of_mem_drop ha, fun hfront => List.disjoint_take_drop h le_rfl hfront ha⟩
  · rintro ⟨ha, hfront⟩
    rw [← List.take_append_drop n l, List.mem_append] at ha
    exact ha.resolve_left hfront

/-- The next versions in a direction, as many as are given. -/
def Target.next (n : ℕ) : Direction → Target
  | .up => .up (some n)
  | .down => .down (some n)

namespace Plan

variable {s : Source} {applied : VersionSet} {d : Direction} {n : ℕ} {p : Plan}

/-- The versions that can be taken in a direction, the next one first. -/
def queue (s : Source) (applied : VersionSet) : Direction → List ℕ
  | .up => pending s applied
  | .down => applied.toList.reverse

theorem nodup_queue (s : Source) (applied : VersionSet) (d : Direction) : (queue s applied d).Nodup := by
  cases d with
  | up => exact (pending_ascending s applied).imp Nat.ne_of_lt
  | down => exact List.nodup_reverse.2 (applied.ascending.imp Nat.ne_of_lt)

theorem build_next (s : Source) (applied : VersionSet) (n : ℕ) (d : Direction) :
    build s applied (.next n d) = steps s d ((queue s applied d).take n) := by
  cases d <;> rfl

/-- What was taken is in the queue no longer, and nothing else has left it. -/
theorem mem_queue_replay {vs : List ℕ} (h : steps s d vs = .ok p) {v : ℕ} :
    v ∈ queue s (replay applied p) d ↔ v ∈ queue s applied d ∧ v ∉ vs := by
  obtain ⟨hvs, hall⟩ := steps_eq_ok h
  cases d with
  | up =>
    simp only [queue, mem_pending, IsPending, mem_replay_up fun step hs => (hall step hs).1, hvs]
    tauto
  | down =>
    simp only [queue, List.mem_reverse, VersionSet.mem_toList,
      mem_replay_down fun step hs => (hall step hs).1, hvs]

theorem queue_replay (h : build s applied (.next n d) = .ok p) :
    queue s (replay applied p) d = (queue s applied d).drop n := by
  have hmem : ∀ v, v ∈ queue s (replay applied p) d ↔ v ∈ (queue s applied d).drop n := by
    intro v
    rw [build_next] at h
    rw [mem_queue_replay h, mem_drop_iff_of_nodup (nodup_queue s applied d)]
  cases d with
  | up =>
    have hrest := (pending_ascending s applied).sublist (List.drop_sublist n _)
    exact (pending_ascending s (replay applied p)).eq_of_mem_iff hrest hmem
  | down =>
    have hrest := (List.pairwise_reverse.2 applied.ascending).sublist (List.drop_sublist n _)
    have hleft := List.pairwise_reverse.2 (replay applied p).ascending
    exact hleft.eq_of_mem_iff hrest hmem

/-- Two targets one after the other, the second from where the plan of the first leads. -/
def buildBoth (s : Source) (applied : VersionSet) (first second : Target) : Except PlanFault Plan := do
  let p ← build s applied first
  let q ← build s (replay applied p) second
  return p ++ q

theorem buildBoth_eq_ok_iff {first second : Target} {r : Plan} :
    buildBoth s applied first second = .ok r ↔ ∃ p q, build s applied first = .ok p ∧
      build s (replay applied p) second = .ok q ∧ r = p ++ q := by
  rw [buildBoth]
  cases build s applied first with
  | error e => simp [bind, Except.bind]
  | ok p =>
    cases hq : build s (replay applied p) second <;>
      simp [bind, Except.bind, pure, Except.pure, hq, eq_comm]

theorem buildBoth_eq_error_iff {first second : Target} {e : PlanFault} :
    buildBoth s applied first second = .error e ↔ build s applied first = .error e ∨
      ∃ p, build s applied first = .ok p ∧ build s (replay applied p) second = .error e := by
  rw [buildBoth]
  cases build s applied first with
  | error e' => simp [bind, Except.bind]
  | ok p =>
    cases hq : build s (replay applied p) second <;>
      simp [bind, Except.bind, pure, Except.pure, hq]

theorem build_next_add (s : Source) (applied : VersionSet) (n m : ℕ) (d : Direction) :
    build s applied (.next (n + m) d) = buildBoth s applied (.next n d) (.next m d) := by
  rw [buildBoth, build_next s applied (n + m), List.take_add, steps_append, ← build_next]
  cases hp : build s applied (.next n d) with
  | error e => rfl
  | ok p =>
    have hrest : build s (replay applied p) (.next m d) =
        steps s d (((queue s applied d).drop n).take m) := by
      rw [build_next, queue_replay hp]
    show _ = (do
      let q ← build s (replay applied p) (.next m d)
      return p ++ q)
    rw [hrest]
    rfl

/-- Going up by a number of versions and then by another is going up by both.  So it is with going down,
which is refused if one of the two is, and with the fault of the first that is. -/
theorem build_counted_add (s : Source) (applied : VersionSet) (n m : ℕ) :
    (∃ p q, build s applied (.up (some n)) = .ok p ∧
      build s (replay applied p) (.up (some m)) = .ok q ∧
      build s applied (.up (some (n + m))) = .ok (p ++ q)) ∧
    (∀ r, build s applied (.down (some (n + m))) = .ok r ↔
      ∃ p q, build s applied (.down (some n)) = .ok p ∧
        build s (replay applied p) (.down (some m)) = .ok q ∧ r = p ++ q) ∧
    ∀ e, build s applied (.down (some (n + m))) = .error e ↔
      build s applied (.down (some n)) = .error e ∨
        ∃ p, build s applied (.down (some n)) = .ok p ∧
          build s (replay applied p) (.down (some m)) = .error e := by
  have hup := build_next_add s applied n m .up
  have hdown := build_next_add s applied n m .down
  simp only [Target.next] at hup hdown
  refine ⟨?_, fun r => ?_, fun e => ?_⟩
  · obtain ⟨p, q, hp, hq, hr⟩ := buildBoth_eq_ok_iff.1 (hup.symm.trans (build_up s applied (some (n + m))))
    refine ⟨p, q, hp, hq, ?_⟩
    rw [build_up, hr]
  · rw [hdown]
    exact buildBoth_eq_ok_iff
  · rw [hdown]
    exact buildBoth_eq_error_iff

theorem toList_replay_up (hlast : ∀ v, IsPending s applied v → ∀ u ∈ applied, u < v) {vs : List ℕ}
    (hvs : vs.Sublist (pending s applied)) :
    (replay applied (vs.map (stepOf s .up))).toList = applied.toList ++ vs := by
  have hbehind : (applied.toList ++ vs).Pairwise (· < ·) :=
    List.pairwise_append.2 ⟨applied.ascending, (pending_ascending s applied).sublist hvs,
      fun u hu v hv => hlast v (mem_pending.1 (hvs.mem hv)) u hu⟩
  refine (VersionSet.ascending _).eq_of_mem_iff hbehind fun v => ?_
  rw [VersionSet.mem_toList, mem_replay_up fun _ => direction_of_mem_stepOf, map_version_stepOf,
    List.mem_append, VersionSet.mem_toList]

theorem build_down_back (hlast : ∀ v, IsPending s applied v → ∀ u ∈ applied, u < v) {vs : List ℕ}
    (hvs : vs.Sublist (pending s applied)) :
    build s (replay applied (vs.map (stepOf s .up))) (.down (some vs.length)) =
      .ok (vs.reverse.map (stepOf s .down)) := by
  have hfirst : (replay applied (vs.map (stepOf s .up))).toList.reverse.take vs.length = vs.reverse := by
    rw [toList_replay_up hlast hvs, List.reverse_append]
    exact List.take_left' List.length_reverse
  rw [build, takeUpTo, hfirst]
  refine steps_eq_ok_iff.2 ⟨fun v hv => ?_, rfl⟩
  have hfile : s.filesOf v .up ≠ [] := (mem_pending.1 (hvs.mem (List.mem_reverse.1 hv))).1
  rw [stuck_down_iff]
  exact fun hlacks => hfile (hlacks .up)

/-- What went up and down again is as it was, for it was not applied before. -/
theorem replay_back {vs : List ℕ} (hvs : vs.Sublist (pending s applied)) :
    replay (replay applied (vs.map (stepOf s .up))) (vs.reverse.map (stepOf s .down)) = applied := by
  refine VersionSet.eq_of_mem_iff fun v => ?_
  rw [mem_replay_down fun _ => direction_of_mem_stepOf, mem_replay_up fun _ => direction_of_mem_stepOf,
    map_version_stepOf, map_version_stepOf, List.mem_reverse]
  have hnew : v ∈ vs → v ∉ applied := fun hv => (mem_pending.1 (hvs.mem hv)).2
  tauto

/-- Going down as often as going up has gone takes back the same versions, the last one first, if all that
was pending was above all that was applied. -/
theorem down_undoes_up (hlast : ∀ v, IsPending s applied v → ∀ u ∈ applied, u < v) (limit : Option ℕ) :
    ∃ p q, build s applied (.up limit) = .ok p ∧
      build s (replay applied p) (.down (some p.length)) = .ok q ∧
      q.map Step.version = (p.map Step.version).reverse ∧ replay (replay applied p) q = applied := by
  have hvs : (takeUpTo limit (pending s applied)).Sublist (pending s applied) := takeUpTo_sublist limit _
  refine ⟨_, _, build_up s applied limit, ?_, ?_, replay_back hvs⟩
  · rw [List.length_map]
    exact build_down_back hlast hvs
  · rw [map_version_stepOf, map_version_stepOf]

/-- Two versions go up above one that has no file, and both are taken back before it. -/
theorem down_undoes_up_above_unknown :
    let s : Source := ⟨"m", [⟨2000, "b", .up, .sql, ["2000_b.up.sql"]⟩,
      ⟨3000, "c", .down, .sql, ["3000_c.down.sql"]⟩, ⟨3000, "c", .up, .sql, ["3000_c.up.sql"]⟩]⟩
    s.Lacks 1000 ∧ (∀ v, IsPending s (.ofList [1000]) v → ∀ u ∈ VersionSet.ofList [1000], u < v) ∧
    ∃ p q, build s (.ofList [1000]) (.up none) = .ok p ∧
      build s (replay (.ofList [1000]) p) (.down (some p.length)) = .ok q ∧
      q.map Step.version = [3000, 2000] ∧
      replay (replay (.ofList [1000]) p) q = .ofList [1000] := by
  intro s
  have hlast : ∀ v, IsPending s (.ofList [1000]) v → ∀ u ∈ VersionSet.ofList [1000], u < v := by
    intro v hv
    have hall : ∀ v ∈ pending s (.ofList [1000]), ∀ u ∈ (VersionSet.ofList [1000]).toList, u < v := by
      decide
    exact hall v (mem_pending.2 hv)
  obtain ⟨p, q, hp, hq, hback, hreach⟩ := down_undoes_up hlast none
  refine ⟨by intro d; cases d <;> rfl, hlast, p, q, hp, hq, ?_, hreach⟩
  rw [hback, (steps_eq_ok hp).1]
  decide

end Plan

end EngineMigrate
