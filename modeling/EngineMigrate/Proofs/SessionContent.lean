import EngineMigrate.Proofs.PlanStaging
import EngineMigrate.Proofs.Routing

/-!
What a session holds.  A session may be used in any order before it is committed: texts are run, changes are
asked for, and all is given up again.  Main statement: it holds what the uses since it was last emptied
contribute, in their order, and a commit is silent exactly if that is nothing.
-/
namespace EngineMigrate

namespace OperationFile

/-- Why a text lists no operations: it is no YAML, it is no list, or there is a first item that is no
operation. -/
inductive Unreadable (text : String) : Fault → Prop where
  | malformed (h : Yaml.Value.parse? text = none) : Unreadable text .malformed
  | notList {v : Yaml.Value} (h : Yaml.Value.parse? text = some v) (hnull : v ≠ .null)
    (hlist : ∀ vs, v ≠ .sequence vs) : Unreadable text .notList
  | item {vs : List Yaml.Value} {v : Yaml.Value} {i : Nat}
    (h : Yaml.Value.parse? text = some (.sequence vs)) (hi : vs[i]? = some v) (hv : operation? v = none)
    (hfirst : ∀ u ∈ vs.take i, operation? u ≠ none) : Unreadable text (.item i)

theorem operations_eq_error_of_first {vs : List Yaml.Value} {v : Yaml.Value} {i : Nat}
    (hi : vs[i]? = some v) (hv : operation? v = none) (hfirst : ∀ u ∈ vs.take i, operation? u ≠ none) (k : Nat) :
    operations k vs = .error (.item (k + i)) := by
  induction vs generalizing i k with
  | nil => cases hi
  | cons u vs ih =>
    cases i with
    | zero =>
      obtain rfl : u = v := by simpa using hi
      simp [operations, hv]
    | succ i =>
      obtain ⟨hu, hrest⟩ := List.forall_mem_cons.1 hfirst
      obtain ⟨o, ho⟩ := Option.ne_none_iff_exists'.1 hu
      rw [operations, ho]
      simp only [ih hi hrest (k + 1), Except.map]
      congr 2
      omega

theorem exists_first_of_operations {vs : List Yaml.Value} {k : Nat} {f : Fault} (h : operations k vs = .error f) :
    ∃ i v, vs[i]? = some v ∧ operation? v = none ∧ (∀ u ∈ vs.take i, operation? u ≠ none) ∧
      f = .item (k + i) := by
  obtain ⟨i, hi, rfl⟩ := operations_eq_error_iff.1 h
  obtain ⟨hlt, hnone, hfirst⟩ := List.findIdx?_eq_some_iff_getElem.1 hi
  refine ⟨i, vs[i], List.getElem?_eq_getElem hlt, by simpa using hnone, fun u hu => ?_, rfl⟩
  obtain ⟨j, hj, rfl⟩ := List.getElem_of_mem hu
  rw [List.getElem_take]
  simpa using hfirst j (by simpa using (List.length_take ▸ hj : j < min i vs.length).trans_le (Nat.min_le_left _ _))

theorem parse_eq_error_iff {text : String} {f : Fault} : parse text = .error f ↔ Unreadable text f := by
  constructor
  · intro h
    simp only [parse] at h
    split at h
    · rename_i hnone
      cases h
      exact .malformed hnone
    · cases h
    · rename_i vs hvs
      obtain ⟨i, v, hi, hv, hfirst, rfl⟩ := exists_first_of_operations h
      rw [Nat.zero_add]
      exact .item hvs hi hv hfirst
    · rename_i v hnull hlist hv
      cases h
      exact .notList hv hnull hlist
  · rintro (hnone | ⟨hv, hnull, hlist⟩ | ⟨hvs, hi, hv, hfirst⟩)
    · simp only [parse, hnone]
    · rename_i v
      cases v with
      | null => exact absurd rfl hnull
      | sequence vs => exact absurd rfl (hlist vs)
      | _ => simp only [parse, hv]
    · simp only [parse, hvs, operations_eq_error_of_first hi hv hfirst, Nat.zero_add]

end OperationFile

namespace Session

/-- What is done with a session before it is committed. -/
inductive Use where
  | run (content : String) (kind : Kind) (file : String)
  | change (c : Change)
  | reset

namespace Use

def perform (s : Session) : Use → Except DriverFault Unit × Session
  | .run content kind file => s.run content kind file
  | .change c => (.ok (), s.change c)
  | .reset => (.ok (), s.reset)

/-- The session is emptied: on purpose, or by metadata that cannot be read. -/
inductive Empties : Use → Prop where
  | reset : Empties .reset
  | unreadable {content file : String} {f : OperationFile.Fault} (h : OperationFile.Unreadable content f) :
    Empties (.run content .metadata file)

/-- What a use that does not empty the session contributes to its operations. -/
inductive Contributes (s : Session) : Use → List Staged → Prop where
  | run {content file : String} {kind : Kind} {os : List Operation} (h : s.Reads kind content os) :
    Contributes s (.run content kind file) (os.map (⟨·, some file⟩))
  | change (c : Change) : Contributes s (.change c) []

def change? : Use → Option Change
  | .change c => some c
  | _ => none

end Use

def useAll (s : Session) (us : List Use) : Session := us.foldl (fun s u => (u.perform s).2) s

/-- What was added to a session by uses that did not empty it. -/
structure Takes (s : Session) (us : List Use) (s' : Session) : Prop where
  route : s'.route = s.route
  skips : s'.skipConsistencyCheck = s.skipConsistencyCheck
  items : ∃ parts, List.Forall₂ (Use.Contributes s) us parts ∧ s'.bulk.items = s.bulk.items ++ parts.flatten
  changes : s'.changes = s.changes ++ us.filterMap Use.change?

variable {s s' : Session}

theorem Reads.congr {kind : Kind} {content : String} {os : List Operation} (h : s.Reads kind content os)
    (hroute : s'.route = s.route) (hskips : s'.skipConsistencyCheck = s.skipConsistencyCheck) :
    s'.Reads kind content os := by
  have hargs : s'.sqlArgs content = s.sqlArgs content := by simp only [sqlArgs, hskips]
  cases h with
  | blank h => exact .blank h
  | sql h =>
    rw [← hroute, ← hargs]
    exact .sql h
  | metadata h => exact .metadata h

theorem Use.Contributes.congr {u : Use} {items : List Staged} (h : u.Contributes s items)
    (hroute : s'.route = s.route) (hskips : s'.skipConsistencyCheck = s.skipConsistencyCheck) :
    u.Contributes s' items := by
  cases h with
  | run h => exact .run (h.congr hroute hskips)
  | change c => exact .change c

theorem run_of_reads {content : String} {kind : Kind} {os : List Operation} (h : s.Reads kind content os)
    (file : String) : s.run content kind file = (.ok (), s.appendAll os file) := by
  simp only [run, operations_eq_ok_iff.2 h]

theorem run_of_unreadable {content : String} {f : OperationFile.Fault} (h : OperationFile.Unreadable content f)
    (file : String) : s.run content .metadata file = (.error (.unreadable file f), s.reset) := by
  simp only [run, operations, OperationFile.parse_eq_error_iff.2 h]

theorem reads_or_unreadable (s : Session) (kind : Kind) (content : String) :
    (∃ os, s.Reads kind content os) ∨ kind = .metadata ∧ ∃ f, OperationFile.Unreadable content f := by
  cases h : s.operations kind content with
  | ok os => exact .inl ⟨os, operations_eq_ok_iff.1 h⟩
  | error f =>
    cases kind with
    | sql =>
      simp only [operations] at h
      split at h <;> cases h
    | metadata => exact .inr ⟨rfl, f, OperationFile.parse_eq_error_iff.1 h⟩

theorem run_eq_error_iff {content file : String} {kind : Kind} {e : DriverFault} :
    (s.run content kind file).1 = .error e ↔
      ∃ f, kind = .metadata ∧ OperationFile.Unreadable content f ∧ e = .unreadable file f := by
  constructor
  · intro h
    rcases s.reads_or_unreadable kind content with ⟨os, hreads⟩ | ⟨rfl, f, hf⟩
    · rw [run_of_reads hreads] at h
      cases h
    · rw [run_of_unreadable hf] at h
      cases h
      exact ⟨f, rfl, hf, rfl⟩
  · rintro ⟨f, rfl, hf, rfl⟩
    rw [run_of_unreadable hf]

theorem perform_of_empties {u : Use} (h : u.Empties) : (u.perform s).2 = s.reset := by
  cases h with
  | reset => rfl
  | unreadable h => exact congrArg Prod.snd (run_of_unreadable h _)

theorem Takes.refl (s : Session) : s.Takes [] s :=
  ⟨rfl, rfl, ⟨[], .nil, by simp⟩, by simp⟩

theorem Takes.trans {t : Session} {us vs : List Use} (h : s.Takes us s') (h' : s'.Takes vs t) :
    s.Takes (us ++ vs) t := by
  obtain ⟨parts, hparts, hitems⟩ := h.items
  obtain ⟨parts', hparts', hitems'⟩ := h'.items
  have hsame : List.Forall₂ (Use.Contributes s) vs parts' :=
    hparts'.imp fun u items hu => hu.congr h.route.symm h.skips.symm
  refine ⟨h'.route.trans h.route, h'.skips.trans h.skips, ⟨parts ++ parts', ?_, ?_⟩, ?_⟩
  · exact List.rel_append hparts hsame
  · rw [hitems', hitems, List.flatten_append, List.append_assoc]
  · rw [h'.changes, h.changes, List.filterMap_append, List.append_assoc]

/-- What one use adds that does not empty the session. -/
theorem takes_perform {u : Use} (h : ¬ u.Empties) : s.Takes [u] (u.perform s).2 := by
  cases u with
  | run content kind file =>
    rcases s.reads_or_unreadable kind content with ⟨os, hreads⟩ | ⟨rfl, f, hf⟩
    · simp only [Use.perform, run_of_reads hreads]
      refine ⟨rfl, rfl, ⟨[os.map (⟨·, some file⟩)], .cons (.run hreads) .nil, ?_⟩, by simp [Use.change?]⟩
      simp [items_appendAll]
    · exact absurd (.unreadable hf) h
  | change c => exact ⟨rfl, rfl, ⟨[[]], .cons (.change c) .nil, by simp [Use.perform, change]⟩, rfl⟩
  | reset => exact absurd .reset h

theorem takes_useAll {us : List Use} (h : ∀ u ∈ us, ¬ u.Empties) : s.Takes us (s.useAll us) := by
  induction us generalizing s with
  | nil => exact .refl s
  | cons u us ih =>
    obtain ⟨hu, hus⟩ := List.forall_mem_cons.1 h
    exact (takes_perform hu).trans (ih hus)

/-- What went before a use that empties the session leaves no trace. -/
theorem useAll_of_empties {u : Use} (h : u.Empties) (before after : List Use) :
    s.useAll (before ++ u :: after) = (s.useAll before).reset.useAll after := by
  simp only [useAll, List.foldl_append, List.foldl_cons, perform_of_empties h]

theorem settings_useAll (s : Session) (us : List Use) :
    (s.useAll us).route = s.route ∧ (s.useAll us).skipConsistencyCheck = s.skipConsistencyCheck := by
  have hstep : ∀ (s : Session) (u : Use), (u.perform s).2.route = s.route ∧
      (u.perform s).2.skipConsistencyCheck = s.skipConsistencyCheck := by
    intro s u
    by_cases hu : u.Empties
    · rw [perform_of_empties hu]
      exact ⟨rfl, rfl⟩
    · exact ⟨(takes_perform hu).route, (takes_perform hu).skips⟩
  induction us generalizing s with
  | nil => exact ⟨rfl, rfl⟩
  | cons u us ih =>
    obtain ⟨hroute, hskips⟩ := ih (u.perform s).2
    exact ⟨hroute.trans (hstep s u).1, hskips.trans (hstep s u).2⟩

/-- What is there after a use that emptied the session and others that did not is what those others added. -/
theorem staged_of_empties {u : Use} {before after : List Use} (h : u.Empties)
    (hafter : ∀ v ∈ after, ¬ v.Empties) :
    ∃ parts, List.Forall₂ (Use.Contributes s) after parts ∧
      (s.useAll (before ++ u :: after)).bulk.items = parts.flatten ∧
      (s.useAll (before ++ u :: after)).changes = after.filterMap Use.change? := by
  rw [useAll_of_empties h]
  have htakes : (s.useAll before).reset.Takes after _ := takes_useAll hafter
  obtain ⟨parts, hparts, hitems⟩ := htakes.items
  obtain ⟨hroute, hskips⟩ := s.settings_useAll before
  exact ⟨parts, hparts.imp fun u items hu => hu.congr hroute.symm hskips.symm, hitems, htakes.changes⟩

end Session

namespace Driver

theorem ne_nil_of_check {d : Driver} {s : Session} {log : List Turn} {e : DriverFault}
    (h : (d.check s).Runs log (.error e)) : log ≠ [] := by
  rintro rfl
  unfold check at h
  split at h
  · cases h.2
  · split at h
    · cases h.2
    · obtain ⟨reply, log, hlog, -⟩ := h
      cases hlog

theorem unlock_of_isEmpty {s : Session} (h : s.isEmpty = true) (d : Driver) :
    unlock s d = .done (.ok (), d.release) := by
  simp [unlock, commit_of_isEmpty h]

/-- A commit is silent exactly if there is nothing to commit. -/
theorem silent_unlock_iff {d d' : Driver} {s : Session} {log : List Turn} {r : Except DriverFault Unit}
    (h : (unlock s d).Runs log (r, d')) : log = [] ↔ s.bulk.items = [] ∧ s.changes = [] := by
  have hempty : s.isEmpty = true ↔ s.bulk.items = [] ∧ s.changes = [] := by
    simp [Session.isEmpty, Bulk.isEmpty]
  rw [← hempty]
  constructor
  · rintro rfl
    by_contra hs
    rw [Bool.not_eq_true] at hs
    obtain ⟨d'', hcommit, -⟩ := runs_unlock_iff.1 h
    rcases runs_commit hs hcommit with ⟨e, hlook, -, -⟩ | ⟨look, sent, hlog, -, hsent, -⟩
    · exact ne_nil_of_check hlook rfl
    · obtain ⟨b, rest, hb⟩ := List.exists_cons_of_ne_nil (commitBatches_ne_nil (d := d) hs)
      rw [hb, run_sendBatches_cons] at hsent
      obtain ⟨reply, log, rfl, -⟩ := hsent
      simp at hlog
  · intro hs
    rw [unlock_of_isEmpty hs] at h
    exact h.1

end Driver

namespace Session

/-- A session holds what its uses since it was last emptied contribute, in their order: for each text the
operations that it stands for, each put down to its file, and the changes that were asked for.  A text that
is refused is metadata that cannot be read, of which nothing stays; and a commit is silent exactly if the
session holds nothing. -/
theorem staged_since_emptied (s : Session) (us : List Use) :
    (∀ before u after, us = before ++ u :: after → u.Empties → (∀ v ∈ after, ¬ v.Empties) →
      ∃ parts, List.Forall₂ (Use.Contributes s) after parts ∧
        (s.useAll us).bulk.items = parts.flatten ∧ (s.useAll us).changes = after.filterMap Use.change?) ∧
    ((∀ u ∈ us, ¬ u.Empties) → s.Takes us (s.useAll us)) ∧
    (∀ content kind file e, ((s.useAll us).run content kind file).1 = .error e ↔
      ∃ f, kind = .metadata ∧ OperationFile.Unreadable content f ∧ e = .unreadable file f) ∧
    ∀ d log r d', (Driver.unlock (s.useAll us) d).Runs log (r, d') →
      (log = [] ↔ (s.useAll us).bulk.items = [] ∧ (s.useAll us).changes = []) := by
  refine ⟨?_, takes_useAll, fun _ _ _ _ => run_eq_error_iff, fun _ _ _ _ => Driver.silent_unlock_iff⟩
  rintro before u after rfl hu hafter
  exact staged_of_empties hu hafter

/-- Of three files the second lists something that is no operation, at its end. -/
def threeFiles : List Use :=
  [.run "SELECT 1" .sql "1_a.up.sql", .change (.record 1 none),
    .run "- type: a\n- 5\n" .metadata "2_b.up.yaml", .run " SELECT 3\n" .sql "3_c.up.sql",
    .change (.record 3 none)]

/-- The first file and the operation that the second lists before that are not committed with the third. -/
theorem staged_since_emptied_threeFiles :
    ((start (.source "") false).useAll threeFiles).bulk.items =
        [⟨(SqlRoute.source "").operation (.ofSql " SELECT 3\n"), some "3_c.up.sql"⟩] ∧
      ((start (.source "") false).useAll threeFiles).changes = [.record 3 none] := by
  have hsecond : OperationFile.Unreadable "- type: a\n- 5\n" (.item 1) :=
    OperationFile.parse_eq_error_iff.1 (by decide +kernel)
  have hthird : (start (.source "") false).Reads .sql " SELECT 3\n"
      [(SqlRoute.source "").operation (.ofSql " SELECT 3\n")] := .sql (by decide +kernel)
  obtain ⟨hsince, -⟩ := staged_since_emptied (start (.source "") false) threeFiles
  obtain ⟨parts, hparts, hitems, hchanges⟩ := hsince [.run "SELECT 1" .sql "1_a.up.sql", .change (.record 1 none)]
    _ [.run " SELECT 3\n" .sql "3_c.up.sql", .change (.record 3 none)] rfl (.unreadable hsecond) (by
      intro v hv hempties
      cases hempties <;> simp at hv)
  refine ⟨?_, hchanges⟩
  rw [hitems]
  cases hparts with
  | cons hrun hparts =>
    cases hparts with
    | cons hchange hparts =>
      cases hparts
      cases hchange
      cases hrun with
      | run hreads =>
        rw [Except.ok.inj ((operations_eq_ok_iff.2 hreads).symm.trans (operations_eq_ok_iff.2 hthird))]
        rfl

end Session

end EngineMigrate
